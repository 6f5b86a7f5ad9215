import ContractAudit.Ir.Store
import ContractAudit.Program.Folding

/-! # Operations of expressions

Drafts are made from the inside out. A part without a value is `none`; it is a fault to use it.
-/

namespace ContractAudit

open Ir Text

namespace Lower

variable (p : Program) (e : Expr) (o : Expr) (v : Value) (op : AssignOp) (l : Value) (r : Value)

def valueOf (v : Option Value) : Lower Value := need v (.missing "expressionToSlithIR")

def optionOf (v : Option Value) : Lower (Option Value) := if e.isOmitted then return none else return some (<- valueOf v)

def assignWith : Lower Op := op.binary?.elim (assignment l r) (binary l l r)

def isTypeGiven : AssignedType -> Bool
  | .text s => s != ""
  | .type t => t.isSome

/-- The place of a variable in the tuple that initialises it. -/
def componentOf : Value -> Option Nat
  | .target (.var v) => match (p.var v).kind with
    | .inFunction _ i => i
    | _ => none
  | _ => none

def assignStruct (s : StructId) : Lower Unit := do
  let p <- program
  let members := (p.struct s).members.values
  let parts <- members.zipIdx.mapM fun (m, i) => do
    let t <- newTemporary
    let type <- need (p.var m).type (.broken "")
    setType t type
    emit (<- unpack t r i) (some e)
    return t
  for t in parts do push (.argument t .argument none) (some e)
  push (.pending { called := .target (.struct s), count := members.length, result := l, type := (p.struct s).name })
    (some e)

def assignTo (type : AssignedType) (l r : Value) : Lower (Option Value) := do
  match l, r with
  | .list ls, .list rs =>
    require (ls.length == rs.length)
    for (l, r) in ls.zip rs do if !l.isAbsent && isTypeGiven type then emit (<- assignWith op l r) (some e)
    return some .absent
  | .list ls, r =>
    require r.isTuple
    for (l, i) in ls.zipIdx do if !l.isAbsent then emit (<- unpack l r i) (some e)
    return some .absent
  | l, r =>
    match componentOf (<- program) l, r with
    | some i, .tuple _ =>
      emit (<- unpack l r i) (some e)
      return some .absent
    | _, .list rs =>
      emit (<- initArray l rs) (some e)
      return some l
    | _, _ =>
      let t <- typing l
      if t.isArray then
        if !(<- typing r).isArray then
          emit (<- initArray l [r]) (some e)
          return some l
      if let some s := t.struct? then
        if r.isTuple then
          assignStruct e l r s
          return none
      emit (<- assignWith op l r) (some e)
      return some l

/-- Operations on signed numbers convert their operands. -/
def binaryOf (op : BinaryOp) (l r : Value) : Lower Value := do
  let result <- newTemporary
  match op.unsigned? with
  | none => emit (<- binary result l r op) (some e)
  | some unsigned =>
    let int256 : Ty := .elementary (.int 256)
    let converted (v : Value) : Lower Value := do
      let t <- newTemporary
      let c <- conversion t v int256
      setType t int256
      emit c (some e)
      return t
    let l <- converted l
    let r <- if op == .rightShiftArithmetic then pure r else converted r
    let last <- newTemporary
    emit (<- binary last l r unsigned) (some e)
    let c <- conversion result last .uint256
    setType result .uint256
    emit c (some e)
  return result

def givesTuple (type : String) : Bool := startsWith type "tuple(" && type != "tuple()"

def canBePending : Value -> Bool
  | .target (.contract _) | .target (.struct _) | .target (.event _) | .target (.error _) | .target (.member _)
  | .target (.builtinFunction _) | .target (.customRevert _) => true
  | v => v.isVariable

def wrapped? (called : Expr) (v : Value) (count : Nat) : Option Ty :=
  match v, called with
  | .target (.valueType t), .member _ _ name _ =>
    if count != 1 then none
    else if name == "wrap" then some (.valueType t)
    else if name == "unwrap" then some (.elementary (p.valueType t).underlying)
    else none
  | _, _ => none

def thisAddress : Lower Value := do
  let t <- newTemporary
  let c <- conversion t .this .address
  setType t .address
  emit c none
  return t

def instruction? (name : String) (args : List Value) : Option (Lower Value) :=
  let variable_ (n : String) : Lower Value := do
    let t <- newTemporary
    emit (<- assignment t (.target (.member n))) none
    return t
  match name with
  | "caller()" => some (variable_ "msg.sender")
  | "origin()" => some (variable_ "tx.origin")
  | "callvalue()" => some (variable_ "msg.value")
  | "address()" => some thisAddress
  | "extcodesize(uint256)" => some do
    let r <- newReference
    let a <- need args.head? .outOfRange
    emit (<- member r a "codesize") none
    return r
  | "selfbalance()" => some do
    let t <- thisAddress
    let r <- newReference
    emit (<- member r t "balance") none
    return r
  | _ => none

def callOf (e called : Expr) (v : Value) (args : List Value) (names : Option (List String)) (type : String)
    (gas value salt : Option Value) : Lower Value := do
  for a in args do push (.argument a .argument none) (some e)
  let result : Lower Value := if givesTuple type then newTuple else newTemporary
  let p <- program
  match v with
  | .target (.func f) =>
    let r <- result
    let contract := (p.functionDeclarer? f).elim "" fun d => (p.contract d).name
    emit (.call { kind := .internal (some f) (p.functionName f) contract, result := some r, names, typeText := type })
      (some e)
    return r
  | _ =>
    match wrapped? p called v args.length with
    | some t =>
      let r <- newTemporary
      let c <- conversion r (args.headD .absent) t
      setType r t
      emit c (some e)
      return r
    | none =>
      match instruction? (<- nameOf v) args with
      | some x => x
      | none =>
        let r <- result
        require (canBePending v)
        push (.pending {
          called := v, count := args.length, result := r, type, names, gas, value := value
          salt := salt }) (some e)
        return r

/-- On a type, the index makes an array type. -/
def indexOf : Lower Value := do
  let type? : Option Ty := match l with
    | .type t => some t
    | .target (.valueType t) => some (.valueType t)
    | .target (.contract c) => some (.contract c)
    | .target (.enum c) => some (.enum c)
    | .target (.struct s) => some (.struct s)
    | _ => none
  match type? with
  | some t =>
    match r with
    | .constant c =>
      let n <- match c.value with
        | .int i => pure i
        | .bool b => pure (if b then 1 else 0)
        | .text s => need s.toInt? (.badValue s!"invalid literal for int() with base 10: {Text.quoted s}")
      let shown := toString n
      let length : ArrayLength := { value := .int n, unit := none, shown, written := shown, reads := [] }
      return .type (.array t (if n == 0 then none else some length))
    | _ => throw (.broken "")
  | none =>
    let result <- newReference
    let s <- get
    let isStruct := match l with
      | .target (.var v) => s.program.isLocalVariable v && (ValueTyping.ofOption (s.program.var v).type).struct?.isSome
      | _ => false
    if isStruct then
      emit (<- member result l ("_" ++ s.program.valueText s.store r)) (some e)
      return result
    let l <- match l with
      | .list items => do
        let t <- newTemporary
        emit (<- initArray t items) (some e)
        pure t
      | l => pure l
    emit (<- index result l r) (some e)
    return result

def rangeOf (arg : Expr) : Lower (Int × Option Int × ValueTyping) := do
  let p <- program
  let ofEnum (e : EnumId) : Int × Option Int × ValueTyping := (0, some ((p.enum e).values.length - 1 : Int), .unknown)
  match arg with
  | .typeName _ t =>
    match t with
    | .elementary t => return (<- ofExcept t.min, <- ofExcept t.max, .one (.elementary t))
    | _ => throw (.broken "")
  | .member _ o name _ =>
    match o with
    | .name _ (.contract c) _ _ =>
      match (p.contract c).enums.values.find? fun e => (p.enum e).name == name with
      | some e => return ofEnum e
      | none => throw (.unbound "type_found_in_expression")
    | .name .. | .literal .. => throw (.broken "")
    | _ => throw (.lacks o.kindName "value")
  | .name _ (.enum e) _ _ => return ofEnum e
  | _ => throw (.broken "")

def rangeArgument? (name : String) : Option (List Expr) :=
  match o with
  | .call _ (.name _ (.builtinFunction "type()") _ _) args _ _ _ _ _ _ =>
    if name == "min" || name == "max" then some args else none
  | _ => none

def importedSignature (type name : String) : String :=
  let s := ["pure ", "view ", "struct ", "enum ", " memory"].foldl (fun s w => replace s w "")
    (replace type "function " name)
  (splitOn s " returns").headD ""

/-- What a name stands for in a file, names under which something was imported apart. -/
def inFile? (scope : FileScope) (type name : String) : Option Value :=
  (scope.contracts.find? name).map (.target <| .contract ·) <|> (scope.structs.find? name).map (.target <| .struct ·)
    <|> (scope.vars.find? name).map (.target <| .var ·) <|> (scope.enums.find? name).map (.target <| .enum ·)
    <|> (scope.valueTypes.find? name).map (.target <| .valueType ·)
    <|> (scope.imports.find? fun i => (p.import_ i).aliasName == some name).map .file
    <|> (scope.errors.find? fun e => (p.error e).name == name).map (.target <| .error ·)
    <|> if startsWith type "function " then
      (scope.functions.find? fun f => p.functionFullName f == importedSignature type name).map .func
    else none

/-- The flag says that the search is over. Names imported under other names are followed, at most `fuel` times. -/
def inScope (scope : FileScope) (type : String) : Nat -> String -> Result (Bool × Option Value)
  | 0, _ => throw .depth
  | fuel + 1, name =>
    match scope.renames.find? name with
    | some other => do
      let (_, v) <- inScope scope type fuel other
      return (true, v)
    | none =>
      let v := inFile? p scope type name
      return (v.isSome, v)

def declaredMember? (name type : String) : Result (Option (Option Value)) :=
  match v with
  | .target (.valueType _) => return if name == "wrap" || name == "unwrap" then some (some v) else none
  | .target (.contract c) =>
    let x := p.contract c
    if let some t := x.valueTypes.find? name then return some (some (.target (.valueType t)))
    else if let some err := x.errors.find? name then return some (some (.target (.error err)))
    else if let some n := x.enums.find? (p.exprText e) then return some (some (.target (.enum n)))
    else return none
  | .target (.imported i) | .file i => do
    let (done, v) <- inScope p (p.scope (p.import_ i).scope) type 1000 name
    return if done then some v else none
  | _ => return none

def memberOf (name type : String) : Lower (Option Value) := do
  let p <- program
  match rangeArgument? o name with
  | some args =>
    match args with
    | [arg] =>
      let t <- newTemporary
      let (least, greatest, typing) <- rangeOf arg
      let text := if name == "min" then toString least else greatest.elim "None" toString
      emit (<- assignment t (<- constantAt text typing)) none
      return some t
    | _ => throw (.broken "")
  | none =>
    let isAddress <- if v.isVariable then pure (<- typing v).isAddress else pure false
    if isAddress && (name == "balance" || name == "code" || name == "codehash") then
      let t <- newTemporary
      emit (.call { kind := .builtin (.builtinFunction (name ++ "(address)")), result := some t, arguments := [v] }) (some e)
      return some t
    match <- ofExcept (declaredMember? p e v name type) with
    | some w => return w
    | none =>
      let r <- newReference
      emit (<- member r v name) (some e)
      return some r

def literalOf (v : LiteralValue) (t : Ty) (unit : Option String) : Lower Value := do
  match t, v with
  | .elementary t, .text s => return .constant (<- ofExcept (Constant.ofLiteral s (some t) unit))
  | _, _ => throw (.broken "")

def unaryOf (op : UnaryOp) (v : Value) : Lower Value := do
  let step (op : BinaryOp) : Lower Unit := do
    let one <- constantAt "1" (<- typing v)
    emit (<- binary v v one op) (some e)
  let copy : Lower Value := do
    let t <- newTemporary
    let _ <- typing v
    emit (<- assignment t v) (some e)
    return t
  match op with
  | .bang | .tilde =>
    let t <- newTemporary
    require (<- canBeRead v)
    emit (.unary t op v) (some e)
    return t
  | .delete =>
    require (<- canBeWritten v)
    emit (.delete v v) (some e)
    return v
  | .incrementBefore =>
    step .addition
    return v
  | .decrementBefore =>
    step .subtraction
    return v
  | .incrementAfter =>
    let t <- copy
    step .addition
    return t
  | .decrementAfter =>
    let t <- copy
    step .subtraction
    return t
  | .plus => return v
  | .minus =>
    let t <- newTemporary
    let zero <- constantAt "0" (<- typing v)
    emit (<- binary t zero v .subtraction) (some e)
    return t

mutual
def visit (e : Expr) : Lower (Option Value) :=
  match e with
  | .omitted => return none
  | .assign _ op l r type => do
    let l <- visit l
    let r <- visit r
    assignTo e op type (<- valueOf l) (<- valueOf r)
  | .binary _ op l r => do
    let l <- visit l
    let r <- visit r
    return some (<- binaryOf e op (<- valueOf l) (<- valueOf r))
  | .call _ called args names type gas value salt _ => do
    let v <- visit called
    let vs <- visitAll args
    let value' <- visit value
    let gas' <- visit gas
    let salt' <- visit salt
    let v <- valueOf v
    let vs <- ((args.zip vs).filter fun (a, _) => !a.isOmitted).mapM fun (_, v) => valueOf v
    return some (<- callOf e called v vs names type (<- optionOf gas gas') (<- optionOf value value')
      (<- optionOf salt salt'))
  | .conditional _ c t f => do
    let _ <- visit c
    let _ <- visit f
    let _ <- visit t
    let text := (<- program).exprText e
    throw (.lowering s!"Ternary operator are not convertible to SlithIR {text}")
  | .typeName _ t => return some (.type t)
  | .name _ t _ _ => return some (.target t)
  | .index _ l r => do
    let l <- visit l
    let r <- visit r
    return some (<- indexOf e (<- valueOf l) (<- valueOf r))
  | .literal _ v t unit => return some (<- literalOf v t unit)
  | .member _ o name type => do
    let v <- visit o
    memberOf e o (<- valueOf v) name type
  | .newArray _ t => do
    let r <- newTemporary
    push (.newArray t r) (some e)
    return some r
  | .newContract _ t => do
    let r <- newTemporary
    push (.newContract t r) (some e)
    return some r
  | .newElementary _ t => do
    let r <- newTemporary
    push (.newElementary t r) (some e)
    return some r
  | .tuple _ items => do
    let vs <- visitAll items
    let vs <- (items.zip vs).mapM fun (i, v) => if i.isOmitted then return .absent else valueOf v
    match vs with
    | [v] => return some v
    | vs => return some (.list vs)
  | .conversion _ x t => do
    let v <- visit x
    require !x.isOmitted
    let v <- valueOf v
    let r <- newTemporary
    let c <- conversion r v t
    setType r t
    emit c (some e)
    return some r
  | .unary _ op x => do
    let v <- visit x
    return some (<- unaryOf e op (<- valueOf v))

def visitAll (es : List Expr) : Lower (List (Option Value)) :=
  match es with
  | [] => return []
  | e :: es => do
    let v <- visit e
    let vs <- visitAll es
    return v :: vs
end

end Lower

end ContractAudit
