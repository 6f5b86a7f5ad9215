import ContractAudit.Reader.State

/-! # Vyper modules

What a module says, before its names and types are resolved.
-/

namespace ContractAudit.Vyper

structure Site where
  position : String := "-1:-1:-1"
  number : Int := -1

inductive Term where
  | int (site : Site) (value : String)
  | hex (site : Site) (value : String)
  | str (site : Site) (value : String)
  | bytes (site : Site) (value : String)
  | truth (site : Site) (value : String)
  | name (site : Site) (id : String)
  | member (site : Site) (value : Term) (attr : String)
  | call (site : Site) (func : Term) (args keywords : List Term)
  | subscript (site : Site) (value slice : Term)
  | index (site : Site) (value : Term)
  | tuple (site : Site) (elements : List Term)
  | list (site : Site) (elements : List Term)
  | dict (site : Site) (keys values : List Term)
  | unary (site : Site) (sign : String) (operand : Term)
  | binary (site : Site) (sign : String) (left right : Term)
  | compare (site : Site) (sign : String) (left right : Term)
  | boolean (site : Site) (sign : String) (values : List Term)
  | keyword (site : Site) (arg : String) (value : Term)
  | other (site : Site) (kind : String)

namespace Term

def kindName : Term -> String
  | int .. => "Int"
  | hex .. => "Hex"
  | str .. => "Str"
  | bytes .. => "Bytes"
  | truth .. => "NameConstant"
  | name .. => "Name"
  | member .. => "Attribute"
  | call .. => "Call"
  | subscript .. => "Subscript"
  | index .. => "Index"
  | tuple .. => "Tuple"
  | list .. => "VyList"
  | dict .. => "VyDict"
  | unary .. => "UnaryOp"
  | binary .. => "BinOp"
  | compare .. => "Compare"
  | boolean .. => "BoolOp"
  | keyword .. => "Keyword"
  | other _ kind => kind

def site : Term -> Site
  | int s _ | hex s _ | str s _ | bytes s _ | truth s _ | name s _ | member s _ _ | call s _ _ _
  | subscript s _ _ | index s _ | tuple s _ | list s _ | dict s _ _ | unary s _ _ | binary s _ _ _
  | compare s _ _ _ | boolean s _ _ | keyword s _ _ | other s _ => s

def isTypeTerm : Term -> Bool
  | name .. | subscript .. | call .. | tuple .. => true
  | _ => false

end Term

inductive Action where
  | value (term : Term)
  | assign (site : Site) (target value : Term)
  | augment (site : Site) (sign : String) (target value : Term)
  | assert (site : Site) (test : Term) (message : Option Term)
  | raise (site : Site) (message : Option Term)

inductive Statement where
  | declare (site : Site) (target typeTerm : Term) (value : Option Term)
  | act (site : Site) (action : Action)
  | expression (site : Site) (value : Term)
  | log (site : Site) (value : Term)
  | forLoop (site : Site) (target iterator : Term) (body : List Statement)
  | ifElse (site : Site) (test : Term) (whenTrue whenFalse : List Statement)
  | breaks (site : Site)
  | continues (site : Site)
  | returns (site : Site) (value : Option Term)
  | pass (site : Site)
  | other (kind : String)

def Statement.kindName : Statement -> String
  | declare .. => "AnnAssign"
  | act _ (.assign ..) => "Assign"
  | act _ (.augment ..) => "AugAssign"
  | act _ (.assert ..) => "Assert"
  | act _ (.raise ..) => "Raise"
  | act _ (.value t) => t.kindName
  | expression .. => "Expr"
  | log .. => "Log"
  | forLoop .. => "For"
  | ifElse .. => "If"
  | breaks .. => "Break"
  | continues .. => "Continue"
  | returns .. => "Return"
  | pass .. => "Pass"
  | other kind => kind

structure Parameter where
  site : Site := {}
  name : String
  typeTerm : Term

structure FunctionItem where
  site : Site := {}
  name : String
  parametersSite : Site := {}
  parameters : List Parameter := []
  defaults : List Term := []
  result : Option Term := none
  body : List Statement
  decorators : List Term := []
  documented : Bool := false

structure VariableItem where
  site : Site
  target : Term
  typeTerm : Term
  value : Option Term
  isConstant : Bool
  isImmutable : Bool
  isPublic : Bool

structure GroupItem where
  site : Site
  name : String
  body : List Statement

inductive Item where
  | function (f : FunctionItem)
  | event (e : GroupItem)
  | variable_ (v : VariableItem)
  | enum (e : GroupItem)
  | struct (s : GroupItem)
  | imported (package name : String)
  | interface (site : Site) (name : String) (body : List Item)
  | implements
  | other (kind : String)

structure Module where
  site : Site
  name : String
  items : List Item

end ContractAudit.Vyper

namespace ContractAudit.Vyper.Parser

open Ast hiding get

/-! ## Reading the tree of a module -/

section

variable (j : Json)

def site : Result Site := do
  let position <- need j "src"
  let number <- need j "node_id"
  return { position := text position, number := number.int?.getD (-1) }

def kinds : List String :=
  ["Module", "ImportFrom", "EventDef", "AnnAssign", "Name", "Call", "Pass", "StructDef", "VariableDecl",
    "Subscript", "Index", "Hex", "Int", "Str", "DocStr", "Tuple", "FunctionDef", "Assign", "Raise", "Attribute",
    "Assert", "keyword", "arguments", "arg", "UnaryOp", "BinOp", "Expr", "Log", "Return", "If", "Dict", "List",
    "Compare", "NameConstant", "For", "Break", "Continue", "InterfaceDef", "EnumDef", "Bytes", "AugAssign",
    "BoolOp"]

def kind : Result String := do
  let k <- need j "ast_type"
  match k with
  | .str s => if kinds.contains s then return s
  | _ => pure ()
  let keys := if let .obj fields := j then fields.map (·.1) else []
  throw (.parsing ("('unsupported Vyper node', " ++ k.inner ++ ", dict_keys(" ++ Text.quotedList keys ++ "), "
    ++ j.inner ++ ")"))

def unarySigns : Table String String := [("Not", "!"), ("USub", "-")]

def binarySigns : Table String String :=
  [("Add", "+"), ("Mult", "*"), ("Sub", "-"), ("Div", "/"), ("Pow", "**"), ("Mod", "%"), ("BitAnd", "&"),
    ("BitOr", "|"), ("Shr", "<<"), ("Shl", ">>"), ("NotEq", "!="), ("Eq", "=="), ("LtE", "<="), ("GtE", ">="),
    ("Lt", "<"), ("Gt", ">"), ("In", "In"), ("NotIn", "NotIn")]

def assignSigns : Table String String :=
  [("Add", "+="), ("Mult", "*="), ("Sub", "-="), ("Div", "-="), ("Pow", "**="), ("Mod", "%="), ("BitAnd", "&="),
    ("BitOr", "|="), ("Shr", "<<="), ("Shl", ">>=")]

def booleanSigns : Table String String := [("And", "&&"), ("Or", "||")]

def sign (signs : Table String String) (j : Json) : Result String := do
  let op <- path j ["op", "ast_type"]
  match op with
  | .str s =>
    match signs.find? s with
    | some sign => return sign
    | none => throw (.missing s)
  | op => throw (.missingKey op.inner)

def itemsOf (key : String) : Result (List Json) := do items (<- need j key)

def tooDeep : Fault := .depth

def term : Nat -> Json -> Result Term
  | 0, _ => .error tooDeep
  | fuel + 1, j => do
    let sub (key : String) : Result Term := do term fuel (<- need j key)
    let subs (key : String) : Result (List Term) := do (<- itemsOf j key).mapM (term fuel)
    let value : Result String := do return text (<- need j "value")
    match <- kind j with
    | "Int" => let v <- value; return .int (<- site j) v
    | "Hex" => let v <- value; return .hex (<- site j) v
    | "Str" => let v <- value; return .str (<- site j) v
    | "Bytes" => let v <- value; return .bytes (<- site j) v
    | "NameConstant" => let v <- value; return .truth (<- site j) v
    | "Name" => let id := text (<- need j "id"); return .name (<- site j) id
    | "Attribute" =>
      let v <- sub "value"
      let attr := text (<- need j "attr")
      return .member (<- site j) v attr
    | "Call" =>
      let func <- sub "func"
      let args <- subs "args"
      let keyword <- need j "keyword"
      if keyword.truthy then let _ <- term fuel keyword
      let keywords <- subs "keywords"
      return .call (<- site j) func args keywords
    | "Subscript" => let v <- sub "value"; let s <- sub "slice"; return .subscript (<- site j) v s
    | "Index" => let v <- sub "value"; return .index (<- site j) v
    | "Tuple" => let es <- subs "elements"; return .tuple (<- site j) es
    | "List" => let es <- subs "elements"; return .list (<- site j) es
    | "Dict" => let ks <- subs "keys"; let vs <- subs "values"; return .dict (<- site j) ks vs
    | "UnaryOp" => let s <- sign unarySigns j; let e <- sub "operand"; return .unary (<- site j) s e
    | "BinOp" =>
      let s <- sign binarySigns j
      let l <- sub "left"
      let r <- sub "right"
      return .binary (<- site j) s l r
    | "Compare" =>
      let s <- sign binarySigns j
      let l <- sub "left"
      let r <- sub "right"
      return .compare (<- site j) s l r
    | "BoolOp" => let s <- sign booleanSigns j; let vs <- subs "values"; return .boolean (<- site j) s vs
    | "keyword" =>
      let arg := text (<- need j "arg")
      let v <- sub "value"
      return .keyword (<- site j) arg v
    | k => return .other (<- site j) k

variable (fuel : Nat)

def optional (j : Json) (key : String) : Result (Option Term) := do
  let x <- need j key
  if x.truthy then return some (<- term fuel x) else return none

def statement : Nat -> Json -> Result Statement
  | 0, _ => .error tooDeep
  | fuel + 1, j => do
    let sub (key : String) : Result Term := do term fuel (<- need j key)
    let body (key : String) : Result (List Statement) := do (<- itemsOf j key).mapM (statement fuel)
    match <- kind j with
    | "AnnAssign" =>
      let target <- sub "target"
      let typeTerm <- sub "annotation"
      let value <- optional fuel j "value"
      return .declare (<- site j) target typeTerm value
    | "Assign" =>
      let target <- sub "target"
      let value <- sub "value"
      let s <- site j
      return .act s (.assign s target value)
    | "AugAssign" =>
      let sign <- sign assignSigns j
      let target <- sub "target"
      let value <- sub "value"
      let s <- site j
      return .act s (.augment s sign target value)
    | "Assert" =>
      let test <- sub "test"
      let message <- optional fuel j "msg"
      let s <- site j
      return .act s (.assert s test message)
    | "Raise" =>
      let message <- optional fuel j "exc"
      let s <- site j
      return .act s (.raise s message)
    | "Expr" => let v <- sub "value"; return .expression (<- site j) v
    | "Log" => let v <- sub "value"; return .log (<- site j) v
    | "Return" => let v <- optional fuel j "value"; return .returns (<- site j) v
    | "If" =>
      let test <- sub "test"
      let whenTrue <- body "body"
      let whenFalse <- body "orelse"
      return .ifElse (<- site j) test whenTrue whenFalse
    | "For" =>
      let target <- sub "target"
      let iterator <- sub "iter"
      let body <- body "body"
      return .forLoop (<- site j) target iterator body
    | "Break" => return .breaks (<- site j)
    | "Continue" => return .continues (<- site j)
    | "Pass" => return .pass (<- site j)
    | k =>
      let t <- term fuel j
      return .other (if t matches .other .. then k else t.kindName)

def isDocumented : Result Bool := do
  let doc <- need j "doc_string"
  if !doc.truthy then return false
  if let .str _ <- need doc "value" then return true else throw (.broken "")

def parameter (j : Json) : Result Parameter := do
  let name := text (<- need j "arg")
  let typeTerm <- term fuel (<- need j "annotation")
  return { site := <- site j, name, typeTerm }

def function (j : Json) : Result FunctionItem := do
  let body <- (<- itemsOf j "body").mapM (statement fuel)
  let decorators <- (<- itemsOf j "decorator_list").mapM (term fuel)
  let name := text (<- need j "name")
  let args <- need j "args"
  let parameters <- (<- itemsOf args "args").mapM (parameter fuel)
  let _ <- optional fuel args "default"
  let defaults <- (<- itemsOf args "defaults").mapM (term fuel)
  let parametersSite <- site args
  let result <- optional fuel j "returns"
  let _ <- need j "pos"
  let documented <- isDocumented j
  return { site := <- site j, name, parametersSite, parameters, defaults, result, body, decorators, documented }

def group (j : Json) : Result GroupItem := do
  let body <- (<- itemsOf j "body").mapM (statement fuel)
  let name := text (<- need j "name")
  return { site := <- site j, name, body }

def item : Nat -> Json -> Result Item
  | 0, _ => .error tooDeep
  | fuel + 1, j => do
    match <- kind j with
    | "FunctionDef" => return .function (<- function fuel j)
    | "EventDef" =>
      let e <- group fuel j
      -- Events stand nowhere.
      return .event { e with site := {} }
    | "EnumDef" => return .enum (<- group fuel j)
    | "StructDef" => return .struct (<- group fuel j)
    | "VariableDecl" =>
      let typeTerm <- term fuel (<- need j "annotation")
      let value <- optional fuel j "value"
      let target <- term fuel (<- need j "target")
      let isConstant <- need j "is_constant"
      let isImmutable <- need j "is_immutable"
      let isPublic <- need j "is_public"
      return .variable_ { site := <- site j, target, typeTerm, value, isConstant := isConstant.truthy,
                          isImmutable := isImmutable.truthy, isPublic := isPublic.truthy }
    | "ImportFrom" =>
      let package <- need j "module"
      let name <- need j "name"
      let _ <- need j "alias"
      let _ <- site j
      return .imported (text package) (text name)
    | "InterfaceDef" =>
      let body <- (<- itemsOf j "body").mapM (item fuel)
      let name := text (<- need j "name")
      return .interface (<- site j) name body
    | "AnnAssign" =>
      let _ <- statement fuel j
      return .implements
    | _ => return .other (<- statement fuel j).kindName

def ofJson : Result Module := do
  let fuel := weight j + 1
  match <- kind j with
  | "Module" =>
    let items <- (<- itemsOf j "body").mapM (item fuel)
    let name := text (<- need j "name")
    let _ <- isDocumented j
    return { site := <- site j, name, items }
  | k => throw (.lacks k "body")

end

end ContractAudit.Vyper.Parser
