import ContractAudit.Reader.Lookup

/-! # Reading types, expressions and variables

Types and expressions refer to each other: the length of an array is an expression, and a conversion
names a type.
-/

namespace ContractAudit.Reader

open Ast hiding get require

open Load Text

variable (v : VariableId) (ctx : Context) (tree : Json)

def writeProtection? (comment : String) : Option String :=
  let mark := "@custom:security write-protection=\""
  let isPlain (c : Char) : Bool := c.isAlphanum || "_, ()".toList.contains c || 128 ≤ c.toNat
  let read? (cs : List Char) : Option (String × List Char) := do
    let rest <- skip? mark cs
    let inside := rest.takeWhile isPlain
    let rest <- skip? "\"" (rest.drop inside.length)
    some (.ofList inside, rest)
  (allMatches read? (comment.length + 1) comment.toList).head?

def readVariableComment (attributes : Json) : Load Unit := do
  if !(<- has attributes "documentation") then return
  let doc <- need attributes "documentation"
  if !(<- has doc "text") then return
  let text <- textFor "split" (<- need doc "text")
  for c in splitOn text "," do
    if contains c "@custom:security non-reentrant" then modifyVariable v fun x => { x with reentrant := false }
    if let some w := writeProtection? c then
      modifyVariable v fun x => { x with writeProtection := some (x.writeProtection.getD [] ++ [w]) }

def locationOfWords (attributes : Json) : Load String := do
  let type := text (<- need attributes "type")
  return if contains type "memory" then "memory" else if contains type "storage" then "storage" else "default"

def readVariableAttributes (attributes : Json) : Load Unit := do
  match ((<- program).var v).kind with
  | .inFunction _ _ =>
    let location <- (attributes.field? "storageLocation").elim (locationOfWords attributes) fun l => pure (text l)
    modifyVariable v fun x => { x with location := some location }
  | .state _ =>
    let location := (attributes.field? "storageLocation").map text
    modifyVariable v fun x => { x with location := some (location.getD "default") }
  | .eventParameter =>
    if let some i := attributes.field? "indexed" then modifyVariable v fun x => { x with indexed := i.truthy }
  | _ => pure ()
  let visibility := (attributes.field? "visibility").map text
  modifyVariable v fun x => { x with visibility := some (visibility.getD "internal") }

def readFeatures (attributes : Json) : Load Unit := do
  if let some c := attributes.field? "constant" then modifyVariable v fun x => { x with isConstant := c.truthy }
  if let some m := attributes.field? "mutability" then
    if isText m "constant" then modifyVariable v fun x => { x with isConstant := true }
    if isText m "immutable" then modifyVariable v fun x => { x with isImmutable := true }
  readVariableComment v attributes
  readVariableAttributes v attributes

def setReference : Load Unit := do
  if let some id := tree.field? "id" then modifyVariableDraft v fun d => { d with reference := some id }

def setInit (init : Json) : Load Unit := do
  modifyVariable v fun x => { x with initialized := true }
  modifyVariableDraft v fun d => { d with init := some init }

def readDeclaration (init : Json) (compact : Bool) : Load Unit := do
  let attributes <- if compact then pure tree else do
    require ((<- size (<- need tree "children")) ≤ 2)
    require (isText (<- need tree "name") "VariableDeclaration")
    liftM (need tree "attributes")
  let typeName <- if compact then typeString attributes else need attributes "type"
  let name <- need attributes "name"
  modifyVariable v fun x => { x with name := text name }
  setReference v tree
  readFeatures v attributes
  if compact then
    let t <- need tree "typeName"
    modifyVariableDraft v fun d => { d with type := some (if t.truthy then .node t else .words typeName) }
    if init.truthy then setInit v init
  else
    let children <- items (<- need tree "children")
    match children with
    | [] =>
      match Elementary.ofName? (text typeName) with
      | some t => modifyVariable v fun x => { x with type := some (.elementary t) }
      | none => modifyVariableDraft v fun d => { d with type := some (.words typeName) }
    | t :: _ => modifyVariableDraft v fun d => { d with type := some (.node t) }
    if init.truthy then
      require (children.length ≤ 1)
      setInit v init
    else if let [_, i] := children then setInit v i else pure ()

def isDeclarationStatement (k : Json) : Bool :=
  isText k "VariableDeclarationStatement" || isText k "VariableDefinitionStatement"

/-- A statement that declares several variables gives `false`. -/
def declareVariable : Load Bool := do
  if <- has tree "nodeType" then
    let k <- need tree "nodeType"
    if isDeclarationStatement k then
      let declarations <- need tree "declarations"
      if 1 < (<- size declarations) then return false
      readDeclaration v (<- item declarations 0) (tree.fieldOrNull "initialValue") true
      return true
    else if isText k "VariableDeclaration" then
      readDeclaration v tree (tree.fieldOrNull "value") true
      return true
    else throw (.parsing s!"Incorrect variable declaration type {Ast.text k}")
  else
    let k <- need tree "name"
    if isDeclarationStatement k then
      let children <- items (<- need tree "children")
      match children with
      | [d, i] => readDeclaration v d i false; return true
      | [d] => readDeclaration v d .null false; return true
      | [] => throw (.parsing ("Variable declaration without children?" ++ tree.shown))
      | _ => return false
    else if isText k "VariableDeclaration" then
      readDeclaration v tree .null false
      return true
    else throw (.parsing s!"Incorrect variable declaration type {Ast.text k}")

/-- A text with a parenthesis ends where the first parenthesis is closed, unless it starts with one. -/
def plainSignature (s : String) : Result String := do
  let s := [" memory", " storage", " external", " internal", "struct ", "contract ", "enum ", " ref",
    " pointer", " pure", " view", " constant", " payable"].foldl (replace · · "") s
  let s := replace (replace (replace s "function (" "function(") "returns (" "returns(") " calldata" ""
  match s.toList with
  | '(' :: _ => return s
  | cs =>
    let before := cs.takeWhile (· != '(')
    -- Without a parenthesis the count starts at the first character.
    let (head, rest) := if before.length == cs.length then ([], cs) else (before ++ ['('], cs.drop (before.length + 1))
    (close 1 rest).elim (throw (.badIndex "string index out of range")) fun inside => return .ofList (head ++ inside)
where
  close (depth : Nat) : List Char -> Option (List Char)
    | [] => none
    | '(' :: cs => (close (depth + 1) cs).map ('(' :: ·)
    | ')' :: cs => if depth ≤ 1 then some [')'] else (close (depth - 1) cs).map (')' :: ·)
    | c :: cs => (close depth cs).map (c :: ·)

def parametersAt? (cs : List Char) : Option (String × List Char) := do
  let cs <- ["struct (", "enum (", "function (", "modifier ("].findSome? (skip? · cs)
  let run := cs.takeWhile fun c => isWordChar c || "[] ().,_".toList.contains c
  let (inside, after) <- beforeLastParen? run
  some (.ofList inside, after ++ cs.drop run.length)

def nameWithParameters (name : Json) (type : Json) : Result String := do
  match type with
  | .str t =>
    match allMatches parametersAt? (t.length + 1) t.toList with
    | [] => return text name
    | [params] => plainSignature (text name ++ "(" ++ params ++ ")")
    | _ => throw (.broken "")
  | _ => return text name

def superName (name type : Json) : Load String := do
  let params <- expect (after? "function " (<- textFor "startswith" type)) (.broken "")
  let params <- plainSignature params
  return text name ++ .ofList (params.toList.takeWhile (· != ' '))

def typeTarget? : Ty -> Option Target
  | .contract c => some (.contract c)
  | .struct s => some (.struct s)
  | .enum e => some (.enum e)
  | _ => none

def referType (t : Ty) (position : Json) : Load Unit := do
  match t with
  | .valueType a => refer (.valueType a) (<- sourceOf position)
  | t => if let some target := typeTarget? t then refer target (<- sourceOf position)

def arrayLength (e : Expr) : Load ArrayLength := do
  let p <- program
  let written := p.exprText e
  match e with
  | .literal _ v _ unit => return ⟨v, unit, v.renderInUnit unit, written, []⟩
  | e =>
    let v <- lifted (p.fold "uint256" e)
    let v := match v with
      | .int i => .int i
      | .bool b => .bool b
      | .bytes bs => .bytes bs
      | v => .text (v.render p)
    return ⟨v, none, v.render, written, e.targets⟩

def literalType (value : Json) (type : Json) : Result Ty :=
  match type with
  | .null => do
    let s <- textFor "isdecimal" value
    if s != "" && s.toList.all isDecimal then return .uint256 else return .elementary .string
  | .str t =>
    if startsWith t "rational_const " || startsWith t "int_const " then .ok .uint256
    else if startsWith t "bool" then .ok .bool
    else if startsWith t "address" then .ok .address
    else .ok (.elementary .string)
  | j => .error (.lacks j.kindName "startswith")

def literalValue : Json -> LiteralValue
  | .int i => .int i
  | .bool b => .bool b
  | j => .text (text j)

def insertOmitted (type : Json) (items : List Expr) : List Expr :=
  match type with
  | .str t =>
    if contains t ",," || contains t "(," || contains t ",)" then
      let parts := splitOn (dropLast 1 (drop 6 t)) ","
      (parts.zipIdx).foldl (fun items (part, i) =>
        if part == "" then items.take i ++ [.omitted] ++ items.drop i else items) items
    else items
  | _ => items

def innerContext : Load Context := do
  match ctx with
  | .function f => return (<- functionDraft f).contract.elim .unit .contract
  | ctx => return ctx

def newInfo (position : Json) : Load ExprInfo := do
  let source <- sourceOf position
  return { key := <- freshKey, source }

def newName (target : Target) (position : Json) (form : NameForm) : Load Expr := do
  let info <- newInfo position
  refer target info.source
  return .name info target form none

def findName (name : Option String) (ctx : Context) (number : Json) (viaSuper path : Bool) : Load Target := do
  lifted (find (<- get) name ctx number.int? viaSuper path)

def operatorCall (position attributes : Json) (args : List Expr) : Load Expr := do
  let number <- need attributes "function"
  let type <- typeString attributes
  let target <- findName none ctx number false false
  let name <- newName target position .plain
  return .call (<- newInfo position) name args none (text type) .omitted .omitted .omitted false

def part (key : String) (place : Nat) : Load Json := do
  if <- isCompact then need tree key else liftM (do item (<- need tree "children") place : Result Json)

def requireChildren (n : Nat) : Load Unit := do if !(<- isCompact) then require ((<- size (<- need tree "children")) == n)

mutual
def readType : Nat -> TypeTree -> Context -> Load Ty
  | 0, _, _ => throw .depth
  | fuel + 1, tree, ctx => do
    let env := .ofContext (<- program) ctx
    match tree with
    | .words name => namedType env name
    | .node t =>
      let compact <- isCompact
      let kind <- kind t
      let inner <- innerContext ctx
      if isText kind "ElementaryTypeName" then
        let name <- if compact then need t "name" else path t ["attributes", "name"]
        lifted (Ty.ofName (text name))
      else if isText kind "UserDefinedTypeName" then
        let name <- if compact then liftM (typeString t) else do
          let a <- need t "attributes"
          let key := if a.has "type" then "type" else "name"
          liftM (need a key)
        let found <- namedType env name
        referType found (<- need t "src")
        return found
      else if isText kind "IdentifierPath" then
        if !compact then throw (.fatal "Solidity 0.8 not supported with the legacy AST")
        let found <- namedType env (<- need t "name")
        if !(found matches .valueType _) then referType found (<- need t "src")
        return found
      else if isText kind "ArrayTypeName" then
        let length <- if compact then do
            match t.field? "length" with
            | some l => if l.truthy then pure (some (<- readExpr fuel l ctx)) else pure none
            | none => pure none
          else do
            let children <- items (<- need t "children")
            match children with
            | [_, l] => pure (some (<- readExpr fuel l ctx))
            | [_] => pure none
            | _ => throw (.broken "")
        let element <- readType fuel (.node (<- part t "baseType" 0)) inner
        let some e := length | return .array element none
        return .array element (some (<- arrayLength e))
      else if isText kind "Mapping" then
        requireChildren t 2
        let k <- readType fuel (.node (<- part t "keyType" 0)) inner
        let v <- readType fuel (.node (<- part t "valueType" 1)) inner
        return .mapping k v
      else if isText kind "FunctionTypeName" then
        requireChildren t 2
        let params <- part t "parameterTypes" 0
        let results <- part t "returnParameterTypes" 1
        require (<- isKind params "ParameterList")
        require (<- isKind results "ParameterList")
        let key := if compact then "parameters" else "children"
        let paramIds <- (<- items (<- need params key)).mapM (readTypeVariable fuel ctx)
        let resultIds <- (<- items (<- need results key)).mapM (readTypeVariable fuel ctx)
        let p <- program
        let types (ids : List VariableId) := ids.filterMap fun v => (p.var v).type
        return .function (types paramIds) (types resultIds) paramIds resultIds
      else match env.scope with
        | none => throw (.unbound "scope")
        | some i =>
          let file := ((<- program).scope i).file.short
          throw (.parsing ("Type name not found " ++ t.shown ++ s!" in {file}"))

def readTypeVariable : Nat -> Context -> Json -> Load VariableId
  | 0, _, _ => throw .depth
  | fuel + 1, ctx, tree => do
    let v <- newVariable { kind := .functionTypeParameter, source := <- place tree }
    let _ <- declareVariable v tree
    analyzeVariable fuel ctx v
    return v

def analyzeVariable : Nat -> Context -> VariableId -> Load Unit
  | 0, _, _ => throw .depth
  | fuel + 1, ctx, v => do
    let d <- variableDraft v
    if d.analyzed then return
    modifyVariableDraft v fun d => { d with analyzed := true }
    if let some t := d.type then
      let type <- readType fuel t ctx
      modifyVariable v fun x => { x with type := some type }
      modifyVariableDraft v fun d => { d with type := none }
    if ((<- program).var v).initialized then
      let i <- expect d.init (.broken "")
      let e <- readExpr fuel i ctx
      modifyVariable v fun x => { x with expr := some e }
      modifyVariableDraft v fun d => { d with init := none }

def readCall : Nat -> Json -> Context -> Load Expr
  | 0, _, _ => throw .depth
  | fuel + 1, tree, ctx => do
    let position <- need tree "src"
    let compact <- isCompact
    let attributes <- attributes tree
    let converts <- if compact then pure (isText (<- need tree "kind") "typeConversion")
      else pure (<- need attributes "type_conversion").truthy
    let type <- typeWords attributes
    if converts then
      let t <- readType fuel (.words type) ctx
      let argument <- if compact then do
          let args <- need tree "arguments"
          require ((<- size args) == 1)
          liftM (item args 0)
        else do
          requireChildren tree 2
          let head <- need (<- part tree "" 0) "name"
          require (["ElementaryTypenameExpression", "ElementaryTypeNameExpression", "Identifier",
            "TupleExpression", "IndexAccess", "MemberAccess"].any (isText head))
          part tree "" 1
      let e <- readExpr fuel argument ctx
      let info <- newInfo position
      if let some target := typeTarget? t then refer target info.source
      return .conversion info e t
    let (called, options, args) <- if compact then do
        let head <- need tree "expression"
        let called <- readExpr fuel head ctx
        let options <- if isText (<- need head "nodeType") "FunctionCallOptions" then do
            let names <- items ((head.field? "names").getD (.arr []))
            (names.zipIdx).mapM fun (name, i) => do
              let o <- readExpr fuel (<- item (<- need head "options") i) ctx
              pure (text name, o)
          else pure []
        let args <- need tree "arguments"
        let args <- if args.truthy then (<- items args).mapM fun a => readExpr fuel a ctx else pure []
        pure (called, options, args)
      else do
        let children <- items (<- need tree "children")
        let called <- readExpr fuel (<- item (.arr children) 0) ctx
        let args <- (children.drop 1).mapM (readExpr fuel · ctx)
        pure (called, ([] : List (String × Expr)), args)
    let typeText := text type
    if called matches .name _ _ .viaSuper _ then
      return .call (<- newInfo position) called args none typeText .omitted .omitted .omitted true
    let names <- match tree.field? "names" with
      | none => pure none
      | some ns => if (<- size ns) == 0 then pure none else pure (some ((<- items ns).map text))
    let option (name : String) : Expr := (lastOf? name options).getD .omitted
    return .call (<- newInfo position) called args names typeText (option "gas") (option "value") (option "salt") false

def readExpr : Nat -> Json -> Context -> Load Expr
  | 0, _, _ => throw .depth
  | fuel + 1, tree, ctx => do
    let name <- kind tree
    let compact <- isCompact
    let position <- need tree "src"
    let is (s : String) : Bool := isText name s
    let child (key : String) (i : Nat) : Load Expr := do readExpr fuel (<- part tree key i) ctx
    if is "UnaryOperation" then
      let attributes <- attributes tree
      requireChildren tree 1
      let e <- child "subExpression" 0
      require (attributes.has "prefix")
      if attributes.has "function" then return <- operatorCall ctx position attributes [e]
      let op <- lifted (UnaryOp.ofSign (text (<- need attributes "operator")) (<- need attributes "prefix").truthy)
      let e := if op.writes then e.markWritten else e
      return .unary (<- newInfo position) op e
    else if is "BinaryOperation" then
      requireChildren tree 2
      let attributes <- attributes tree
      let l <- child "leftExpression" 0
      let r <- child "rightExpression" 1
      if attributes.has "function" then return <- operatorCall ctx position attributes [l, r]
      let op <- lifted (BinaryOp.ofSign (text (<- need attributes "operator")))
      return .binary (<- newInfo position) op l r
    else if contains "FunctionCall" (text name) then readCall fuel tree ctx
    else if is "FunctionCallOptions" then
      let e <- child "expression" 0
      require (e matches .member .. | .newContract .. | .name .. | .tuple ..)
      return e
    else if is "TupleExpression" then
      let readItems (j : Json) : Load (List Expr) := do
        (<- items j).mapM fun e => if e.truthy then readExpr fuel e ctx else pure .omitted
      let es <- if compact then readItems (<- need tree "components") else
        match tree.field? "children" with
        | none => do readItems (<- path tree ["attributes", "components"])
        | some cs => do (<- items cs).mapM (readExpr fuel · ctx)
      let es := ((tree.field? "attributes").bind (·.field? "type")).elim es fun t => insertOmitted t es
      return .tuple (<- newInfo position) es
    else if is "Conditional" then
      requireChildren tree 3
      let c <- child "condition" 0
      let t <- child "trueExpression" 1
      let f <- child "falseExpression" 2
      return .conditional (<- newInfo position) c t f
    else if is "Assignment" then
      let attributes <- attributes tree
      requireChildren tree 2
      let l <- child "leftHandSide" 0
      let r <- child "rightHandSide" 1
      let op <- lifted (AssignOp.ofSign (text (<- need attributes "operator")))
      let type <- typeWords attributes
      return .assign (<- newInfo position) op l.markWritten r (.text (text type))
    else if is "Literal" then
      require (!tree.has "children")
      let attributes <- attributes tree
      let value := attributes.fieldOrNull "value"
      let unit := if value.truthy then
          (attributes.field? "subdenomination").bind fun u => if u.truthy then some (text u) else none
        else none
      let value <- if value.truthy then pure value
        else if compact then
          if value matches .str _ then pure value
          else pure (.str ("0x" ++ text (<- need tree "hexValue")))
        else if value.isNull then do
          require (attributes.has "hexvalue")
          pure (.str ("0x" ++ text (<- need attributes "hexvalue")))
        else pure value
      let type <- if compact then do
          let t <- typeString tree
          if t.isNull then if isText (<- need tree "kind") "number" then pure (.str "int_const") else pure t
          else pure t
        else need attributes "type"
      let type <- lifted (literalType value type)
      return .literal (<- newInfo position) (literalValue value) type unit
    else if is "Identifier" then
      require (!tree.has "children")
      let attributes <- attributes tree
      let value <- need attributes (if compact then "name" else "value")
      let type <- if compact then typeString tree else pure (attributes.fieldOrNull "type")
      let name <- lifted (nameWithParameters value type)
      let target <- findName (some name) ctx (attributes.fieldOrNull "referencedDeclaration") false false
      newName target position .plain
    else if is "IndexAccess" then
      let (left, right) <- if compact then do
          pure (<- need tree "baseExpression", tree.fieldOrNull "indexExpression")
        else do
          let children <- items (<- need tree "children")
          pure (<- item (.arr children) 0, children[1]?.getD .null)
      if right.isNull then
        match <- readExpr fuel left ctx with
        | .typeName info t => return .typeName info (.array t none)
        | e => return e
      let l <- readExpr fuel left ctx
      let r <- readExpr fuel right ctx
      return .index (<- newInfo position) l r
    else if is "MemberAccess" then
      let attributes <- attributes tree
      let member <- need attributes (if compact then "memberName" else "member_name")
      let type <- typeWords attributes
      requireChildren tree 1
      let object <- child "expression" 0
      if (<- program).exprText object == "super" then
        let name <- superName member type
        let target <- findName (some name) ctx .null true false
        newName target position .viaSuper
      else
        let info <- newInfo position
        let e := .member info object (text member) (text type)
        let text := (<- program).exprText e
        if Builtin.members.has text then return .name (<- newInfo position) (.member text) .plain none
        return e
    else if is "ElementaryTypeNameExpression" then
      let value <- if compact then need tree "typeName"
        else match tree.field? "children" with
          | some cs => do path (<- item cs 0) ["attributes", "name"]
          | none => path tree ["attributes", "value"]
      let t <- readType fuel (if value matches .obj _ then .node value else .words value) ctx
      return .typeName (<- newInfo position) t
    else if is "NewExpression" then
      requireChildren tree 1
      let typeTree <- part tree "typeName" 0
      let k <- kind typeTree
      if isText k "ArrayTypeName" then
        let t <- readType fuel (.node typeTree) ctx
        return .newArray (<- newInfo position) t
      else if isText k "ElementaryTypeName" then
        let n <- if compact then need typeTree "name" else path typeTree ["attributes", "name"]
        let t <- lifted (Elementary.ofName (text n))
        return .newElementary (<- newInfo position) t
      else
        require (isText k "UserDefinedTypeName")
        let t <- readType fuel (.node typeTree) ctx
        require t.isDeclared
        return .newContract (<- newInfo position) t
    else if is "ModifierInvocation" then
      let called <- child "modifierName" 0
      let args <- if compact then
          (tree.field? "arguments").elim (pure []) fun a => if a.truthy then liftM (items a) else pure []
        else do pure ((<- items (<- need tree "children")).drop 1)
      let args <- args.mapM (readExpr fuel · ctx)
      return .call (<- newInfo position) called args none "Modifier" .omitted .omitted .omitted false
    else if is "IndexRangeAccess" then readExpr fuel (<- need tree "baseExpression") ctx
    else if is "IdentifierPath" then
      if !compact then throw (.parsing "IdentifierPath not currently supported for the legacy ast")
      let value <- need tree "name"
      let target <- findName (some (text value)) ctx (tree.fieldOrNull "referencedDeclaration") false true
      newName target position .plain
    else throw (.parsing s!"Expression not parsed {Ast.text name}")
end

def expression (ctx : Context) : Load Expr := do readExpr (<- get).bound tree ctx

def typeOf (ctx : Context) : Load Ty := do readType (<- get).bound (.node tree) ctx

def finishVariable : Load Unit := do analyzeVariable (<- get).bound ctx v

end ContractAudit.Reader
