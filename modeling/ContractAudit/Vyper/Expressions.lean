import ContractAudit.Reader.Expressions
import ContractAudit.Vyper.Parser

/-! # Reading Vyper expressions and types -/

namespace ContractAudit.Vyper

variable (p : Program) (c : ContractId)

/-! ## Names in Vyper modules -/

inductive Scope where
  | function (id : FunctionId) (contract : ContractId)
  | contract (id : ContractId)

namespace Scope

def contractId : Scope -> ContractId
  | function _ c | contract c => c

def title : Scope -> String
  | function f _ => p.functionName f
  | contract c => (p.contract c).name

def local? (name : String) : Scope -> Option Target
  | function f _ => ((p.function f).vars.find? name).map .var
  | contract _ => none

end Scope

def memberNamed? (name : String) : Option Target :=
  let x := p.contract c
  ((x.vars.find? name).map .var).or <|
  ((x.functions.values.reverse.find? fun f => !(p.function f).shadowed && p.functionName f == name).map .func).or <|
  ((x.structs.find? name).map .struct).or <|
  ((x.events.find? name).map .event).or <|
  (x.enums.find? name).map .enum

def enumNamed? (scope : ScopeId) (name : String) : Option EnumId :=
  (p.scope scope).contracts.values.reverse.findSome? fun c => (p.contract c).enums.find? name

/-- After `self` it is no variable of the function. -/
def find (scope : Scope) (name : String) (viaSelf : Bool) : Result Target :=
  let c := scope.contractId
  let x := p.contract c
  let file := p.scope x.scope
  let found :=
    (if viaSelf then none else scope.local? p name).or <|
    (memberNamed? p c name).or <|
    ((file.vars.find? name).map .var).or <|
    ((enumNamed? p x.scope name).map .enum).or <|
    ((file.contracts.find? name).map .contract).or <|
    (if Builtin.vars.has name then some (.builtin name) else none).or <|
    (if Builtin.isFunction (name ++ "()") then some (.builtinFunction (name ++ "()")) else none).or <|
    (x.events.find? (name ++ "()")).map .event
  expect found (.unknownVariable s!"Variable not found: {name} (context {scope.title p})")

def declaredType? (name : String) : Option Ty :=
  let x := p.contract c
  let file := p.scope x.scope
  ((x.structs.find? name).map .struct).or <|
  ((x.enums.find? name).map .enum).or <|
  ((file.contracts.find? name).map .contract).or <|
  (file.structs.find? name).map .struct

/-! ## Reading Vyper expressions and types -/

open Load

structure Reading where
  scope : Scope
  defaults : Table FunctionId (List Term) := []

def infoAt (position : String) : Load ExprInfo := Reader.newInfo (.str position)

def infoNowhere : Load ExprInfo := return { key := <- freshKey }

def typeOfResults : List String -> String
  | [t] => t
  | ts => "tuple(" ++ ",".intercalate ts ++ ")"

def callType (f : FunctionId) : String := typeOfResults (p.returnTexts f)

def firstOf {α : Type} (xs : List α) : Result α := expect xs.head? .outOfRange

def secondOf (ts : List Term) : Result Term := firstOf (ts.drop 1)

def keyword? (name : String) : List Term -> Option Term
  | [] => none
  | .keyword _ arg value :: rest => if arg == name then some value else keyword? name rest
  | _ :: rest => keyword? name rest

def contractOf? : Expr -> Option ContractId
  | .name _ (.var v) _ _ =>
    match (p.var v).kind, (p.var v).type with
    | .state _, some (.contract c) => some c
    | _, _ => none
  | .conversion _ _ (.contract c) => some c
  | _ => none

def newStruct (x : Struct) : Load StructId := do
  let s := (<- program).structTable.size
  modifyProgram fun p => { p with structTable := p.structTable.push x }
  return s

def addMember (s : StructId) (name : String) (v : VariableId) : Load Unit :=
  modifyProgram (·.modifyStruct s fun x => { x with members := x.members.insert name v, order := x.order ++ [name] })

def tupleStruct (scope : ScopeId) (types : List Ty) : Load StructId := do
  let names := (List.range types.length).map fun i => s!"_{i}"
  let s <- newStruct { owner := .topLevel scope, name := "FAKE_TUPLE" ++ .join names, canonicalName := "" }
  for (name, t) in names.zip types do
    addMember s name (<- newVariable { kind := .structMember s, name, type := some t })
  return s

def joined (op : BinaryOp) : Nat -> List Expr -> Load Expr
  | 0, _ => throw (.badIndex "pop from an empty deque")
  | fuel + 1, conditions =>
    match conditions.reverse with
    | [] => throw (.badIndex "pop from an empty deque")
    | [c] => return c
    | l :: r :: rest => do joined op fuel (.binary (<- infoNowhere) op l r :: rest.reverse)

def sizeOf (length : Option ArrayLength) : Result Nat :=
  length.elim (.error (.broken "Dynamic arrays are not supported in comparison operators")) fun l =>
    match l.value with
    | .int i => .ok i.toNat
    | .bool b => .ok (if b then 1 else 0)
    | .text _ => .error (.badType "'str' object cannot be interpreted as an integer")
    | .bytes _ => .error (.badType "'bytes' object cannot be interpreted as an integer")

def elements? (e : Expr) : Load (Option (List Expr)) := do
  match e with
  | .tuple info items => return some (items.map (·.withSource info.source))
  | .name info (.var v) _ _ =>
    match ((<- program).var v).type with
    | some (.array _ length) =>
      let n <- sizeOf length
      let indices <- (List.range n).mapM fun i => do
        let place := .literal (<- infoNowhere) (.text (toString i)) .uint256 none
        return .index { key := <- freshKey, source := info.source } e place
      return some indices
    | _ => return none
  | .name _ (.builtin _) _ _ | .name _ (.member _) _ _ => return none
  | .name _ t _ _ =>
    let kind := match t with
      | .func _ => "FunctionContract"
      | .contract _ => "Contract"
      | .struct _ => "StructureContract"
      | .enum _ => "EnumContract"
      | .event _ => "EventContract"
      | _ => "SolidityFunction"
    throw (.lacks kind "type")
  | _ => return none

def membership (sign : String) (l r : Expr) : Load Expr := do
  let isNegative := sign == "NotIn"
  match <- elements? r with
  | some items =>
    let conditions <- items.mapM fun item => do
      return .binary { key := <- freshKey, source := l.source } (if isNegative then .notEqual else .equal) l item
    joined (if isNegative then .andAnd else .orOr) (conditions.length + 1) conditions
  | none =>
    let left := .conversion (<- infoNowhere) l .uint256
    let right := .conversion (<- infoNowhere) r .uint256
    let mask := .binary (<- infoNowhere) .and left right
    let zero := .literal (<- infoNowhere) (.text "0") .uint256 none
    return .binary { key := <- freshKey, source := l.source } (if isNegative then .equal else .notEqual) mask zero

def operation (position sign : String) (l r : Expr) : Load Expr := do
  let op <- BinaryOp.ofSign sign
  return .binary (<- infoAt position) op l r

def languageCall (position signature : String) (args : List Expr) : Load Expr := do
  let called := .name (<- infoNowhere) (.builtinFunction signature) .plain none
  return .call (<- infoAt position) called args none "tuple()" .omitted .omitted .omitted false

def bound (position which : String) (t : Ty) : Load Expr := do
  let type := (<- program).typeText t
  let called := .name (<- infoNowhere) (.builtinFunction "type()") .plain none
  let information := .call (<- infoNowhere) called [.typeName (<- infoNowhere) t] none type .omitted .omitted .omitted false
  return .member (<- infoAt position) information which type

mutual
def readType : Nat -> Reading -> Term -> Load Ty
  | 0, _, _ => throw .depth
  | fuel + 1, r, t => do
    match t with
    | .name _ name =>
      if let some e := Elementary.ofName? name.toLower then return .elementary e
      let p <- program
      match declaredType? p r.scope.contractId name with
      | some t => return t
      | none => throw (.parsing s!"Type name not found {name} context {r.scope.title p}")
    | .subscript _ value (.index _ slice) =>
      match slice, value with
      | .tuple _ types, .name _ "DynArray" =>
        let element <- readType fuel r (<- firstOf types)
        let length <- readTerm fuel r (<- secondOf types)
        return .array element (some (<- Reader.arrayLength length))
      | .tuple _ types, .name _ "HashMap" =>
        let key <- readType fuel r (<- firstOf types)
        let value <- readType fuel r (<- secondOf types)
        return .mapping key value
      | .tuple .., .name .. =>
        let _ <- readTerm fuel r slice
        throw (.unbound "type_")
      | .tuple .., _ => throw (.broken "")
      | _, .name .. | _, .subscript .. =>
        let element <- readType fuel r value
        if value matches .name _ "String" then return element
        let length <- readTerm fuel r slice
        return .array element (some (<- Reader.arrayLength length))
      | _, _ =>
        let _ <- readTerm fuel r slice
        throw (.unbound "type_")
    | .call _ _ args _ => readType fuel r (<- firstOf args)
    | .tuple _ elements =>
      let types <- elements.mapM (readType fuel r)
      let scope := ((<- program).contract r.scope.contractId).scope
      return .struct (<- tupleStruct scope types)
    | _ => throw (.broken "")

def readTerm : Nat -> Reading -> Term -> Load Expr
  | 0, _, _ => throw .depth
  | fuel + 1, r, t => do
    let position := t.site.position
    let literal (value : String) (type : Ty) : Load Expr := do return .literal (<- infoAt position) (.text value) type none
    match t with
    | .int _ v => literal v .uint256
    | .hex _ v => literal v .address
    | .str _ v => literal v (.elementary .string)
    | .bytes _ v => literal v (.elementary .bytes)
    | .truth _ v =>
      require (v == "True" || v == "False")
      literal v .bool
    | .name _ id =>
      let target <- find (<- program) r.scope id false
      return .name (<- infoAt position) target .plain none
    | .call _ func args keywords =>
      let called <- readTerm fuel r func
      match called with
      | .name _ (.builtinFunction "empty()") _ _ =>
        let t <- readType fuel r (<- firstOf args)
        let type := (<- program).typeText t
        return .call (<- infoAt position) called [] none type .omitted .omitted .omitted false
      | .name _ (.builtinFunction "convert()") _ _ =>
        let e <- readTerm fuel r (<- firstOf args)
        let t <- readType fuel r (<- secondOf args)
        return .conversion (<- infoAt position) e t
      | .name _ (.builtinFunction "min_value()") _ _ => bound position "min" (<- readType fuel r (<- firstOf args))
      | .name _ (.builtinFunction "max_value()") _ _ => bound position "max" (<- readType fuel r (<- firstOf args))
      | .name _ (.builtinFunction "raw_call()") _ _ =>
        let args <- args.mapM (readTerm fuel r)
        let type := "tuple(bool,bytes32)"
        let receiver <- firstOf args
        let called := .member (<- infoNowhere) receiver "raw_call" type
        let option (name : String) : Load Expr := (keyword? name keywords).elim (return .omitted) (readTerm fuel r)
        let info <- infoAt position
        let value <- option "value"
        let gas <- option "gas"
        return .call info called args.tail none type gas value .omitted false
      | .name _ (.builtinFunction "send()") _ _ =>
        let args <- args.mapM (readTerm fuel r)
        let receiver <- firstOf args
        let called := .member (<- infoNowhere) receiver "send" "tuple()"
        return .call (<- infoAt position) called args.tail none "tuple()" .omitted .omitted .omitted false
      | _ =>
        let args <- match args with
          | .dict _ _ values :: _ => values.mapM (readTerm fuel r)
          | args => args.mapM (readTerm fuel r)
        let call (args : List Expr) (type : String) : Load Expr := do
          return .call (<- infoAt position) called args none type .omitted .omitted .omitted false
        match called with
        | .name _ (.func f) _ _ =>
          let p <- program
          let type := callType p f
          let defaults := (r.defaults.find? f).getD []
          if args.length < (p.function f).parameters.length then call (args ++ (<- defaults.mapM (readTerm fuel r))) type
          else call args type
        | .name _ (.builtinFunction signature) _ _ => call args (typeOfResults ((Builtin.results? signature).getD []))
        | .name _ (.contract _) _ _ =>
          let t <- readType fuel r func
          let e <- firstOf args
          return .conversion (<- infoAt position) e t
        | .member _ _ _ type => call args (if type == "" then "tuple()" else type)
        | _ => call args "tuple()"
    | .member _ value attr =>
      match value with
      | .name _ id =>
        if id == "self" && attr != "balance" then
          let target <- find (<- program) r.scope attr true
          let info <- infoAt position
          refer target info.source
          return .name info target .viaSelf none
        let e <- readTerm fuel r value
        if attr == "address" then return .conversion (<- infoAt position) e .address
        let member := .member (<- infoAt position) e attr ""
        let text := (<- program).exprText member
        if Builtin.members.has text then return .name (<- infoAt position) (.member text) .plain none
        return member
      | _ =>
        let e <- readTerm fuel r value
        let p <- program
        let type <- match contractOf? p e with
          | some c =>
            match <- find p (.contract c) attr false with
            | .func f => pure (callType p f)
            | _ => pure ""
          | none => pure ""
        return .member (<- infoAt position) e attr type
    | .tuple _ items | .list _ items =>
      let items <- items.mapM (readTerm fuel r)
      return .tuple (<- infoAt position) items
    | .unary _ sign e =>
      let e <- readTerm fuel r e
      let op <- UnaryOp.ofSign sign true
      return .unary (<- infoAt position) op e
    | .compare _ sign l rhs =>
      let l <- readTerm fuel r l
      let e <- readTerm fuel r rhs
      if sign == "In" || sign == "NotIn" then membership sign l e else operation position sign l e
    | .binary _ sign l rhs => operation position sign (<- readTerm fuel r l) (<- readTerm fuel r rhs)
    | .boolean _ sign values =>
      operation position sign (<- readTerm fuel r (<- firstOf values)) (<- readTerm fuel r (<- secondOf values))
    | .subscript _ value slice =>
      let l <- readTerm fuel r value
      match slice with
      | .index _ i =>
        let i <- readTerm fuel r i
        return .index (<- infoAt position) l i
      | t => throw (.lacks t.kindName "value")
    | t => throw (.parsing s!"Expression not parsed {t.kindName}")
end

def readAction (fuel : Nat) (r : Reading) : Action -> Load Expr
  | .value t => readTerm fuel r t
  | .assign s target value => do
    let l <- readTerm fuel r target
    let e <- readTerm fuel r value
    return .assign (<- infoAt s.position) .assign l.markWritten e (.type none)
  | .augment s sign target value => do
    let l <- readTerm fuel r target
    let e <- readTerm fuel r value
    let op <- AssignOp.ofSign sign
    return .assign (<- infoAt s.position) op l.markWritten e (.type none)
  | .assert s test message => do
    let test <- readTerm fuel r test
    match message with
    | none => languageCall s.position "require(bool)" [test]
    | some m => languageCall s.position "require(bool,string)" [test, <- readTerm fuel r m]
  | .raise s message => do
    match message with
    | none => languageCall s.position "revert()" []
    | some m => languageCall s.position "revert(string)" [<- readTerm fuel r m]

end ContractAudit.Vyper
