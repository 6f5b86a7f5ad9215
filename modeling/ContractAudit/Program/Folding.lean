import ContractAudit.Program.Signature

/-! # Constant folding

Numbers written in a program are exact fractions; constants that are looked up are integers.
-/

namespace ContractAudit

open Text Number

def Expr.kindName : Expr -> String
  | omitted => "NoneType"
  | assign .. => "AssignmentOperation"
  | binary .. => "BinaryOperation"
  | call _ _ _ _ _ _ _ _ viaSuper => if viaSuper then "SuperCallExpression" else "CallExpression"
  | conditional .. => "ConditionalExpression"
  | typeName .. => "ElementaryTypeNameExpression"
  | name _ _ .plain _ => "Identifier"
  | name _ _ .viaSuper _ => "SuperIdentifier"
  | name _ _ .viaSelf _ => "SelfIdentifier"
  | index .. => "IndexAccess"
  | literal .. => "Literal"
  | member .. => "MemberAccess"
  | newArray .. => "NewArray"
  | newContract .. => "NewContract"
  | newElementary .. => "NewElementaryType"
  | tuple .. => "TupleExpression"
  | conversion .. => "TypeConversion"
  | unary .. => "UnaryOperation"

inductive Folded where
  | unset
  | unbounded
  | bool (b : Bool)
  | int (i : Int)
  | ratio (q : Rat)
  | text (s : String)
  | bytes (bs : List UInt8)
  | builtin (target : Target)
  | expr (e : Expr)

namespace Folded

def kindName : Folded -> String
  | unset | unbounded => "NoneType"
  | bool _ => "bool"
  | int _ => "int"
  | ratio _ => "Fraction"
  | text _ => "str"
  | bytes _ => "bytes"
  | builtin (.customRevert _) => "SolidityCustomRevert"
  | builtin _ => "SolidityFunction"
  | expr e => e.kindName

def ofLiteral : LiteralValue -> Folded
  | .text s => text s
  | .int i => int i
  | .bool b => bool b
  | .bytes bs => bytes bs

def render (p : Program) : Folded -> String
  | unset | unbounded => "None"
  | bool b => ofBool b
  | int i => toString i
  | ratio q => showRat q
  | text s => s
  | bytes bs => quotedBytes bs
  | builtin t => p.targetText t
  | expr e => p.exprText e

def get : Folded -> Result Folded
  | unset => .error (.missing "ConstantFolding")
  | v => .ok v

def ofRatio (integral : Bool) (q : Rat) : Folded := if integral then int (truncate q) else ratio q

def toNumber : Folded -> Result Folded
  | bool b => .ok (ratio (if b then 1 else 0))
  | int i => .ok (ratio i)
  | ratio q => .ok (ratio q)
  | text s => return let (q, integral) := <- literalNumber s; ofRatio integral q
  | bytes bs => .ok (int (Hash.bytesToNat bs))
  | v => .error (.lacks v.kindName "startswith")

def toInteger (v : Folded) : Result Folded := do
  match <- v.toNumber with
  | ratio q => return int (truncate q)
  | v => return v

def asInt : Folded -> Result Int
  | bool b => .ok (if b then 1 else 0)
  | int i => .ok i
  | ratio q => .ok (truncate q)
  | text s => decimal s
  | bytes bs => .error (.badValue ("invalid literal for int() with base 10: " ++ quotedBytes bs))
  | v => .error (.badType (s!"int() argument must be a string, a bytes-like object or a real number, " ++
      s!"not '{v.kindName}'"))

def asRatio? : Folded -> Option (Rat × Bool)
  | bool b => some (if b then 1 else 0, true)
  | int i => some (i, true)
  | ratio q => some (q, false)
  | _ => none

def settle (unsigned : Bool) : Folded -> Folded
  | ratio q =>
    let i := truncate q
    if unsigned then int (i % Int.pow 2 256) else int i
  | v => v

end Folded

namespace Fold

abbrev notConstant : Fault := .notConstant ""

/-- Only whole exponents have a value. -/
def power (a : Rat) (aInt : Bool) (b : Rat) (bInt : Bool) : Result Folded :=
  if b.den != 1 then .error notConstant
  else if 0 ≤ b.num then .ok (.ofRatio aInt (.pow a b.num.toNat))
  else if a == 0 then
    if aInt && bInt then .error (.zeroDenominator "0.0 cannot be raised to a negative power")
    else .error (.zeroDenominator s!"Fraction(1, 0)")
  else if aInt && bInt then .error notConstant
  else .ok (.ratio (.pow (1 / a) b.num.natAbs))

def quotient (a : Rat) (b : Rat) (bInt : Bool) : Result Folded :=
  if bInt then
    if b == 0 then .error (.zeroDenominator "integer division or modulo by zero")
    else .ok (.int (.fdiv a.num (a.den * b.num)))
  else if b == 0 then .error (.zeroDenominator s!"Fraction({a.num}, 0)")
  else .ok (.ratio (a / b))

def remainder (a : Rat) (aInt : Bool) (b : Rat) (bInt : Bool) : Result Folded :=
  if b == 0 then .error (.zeroDenominator "integer modulo by zero")
  else
    let r := .fmod (a.num * b.den) (b.num * a.den)
    .ok (.ofRatio (aInt && bInt) (mkRat r (a.den * b.den)))

variable (p : Program) (a b : Int) (l r : Folded)

def shiftLeft : Result Int :=
  if b < 0 then .error (.badValue "negative shift count") else .ok (a * Int.pow 2 b.toNat)

def shiftRight : Result Int :=
  if b < 0 then .error (.badValue "negative shift count") else .ok (.fdiv a (Int.pow 2 b.toNat))

def bitWidth : Nat := .log2 a.natAbs + .log2 b.natAbs + 2

def bitwise (f : Nat -> Nat -> Nat) (a b : Int) : Int :=
  let w := bitWidth a b
  let m := Int.pow 2 w
  let r : Int := f (a % m).toNat (b % m).toNat
  if r < Int.pow 2 (w - 1) then r else r - m

def numbers? : Option ((Rat × Bool) × (Rat × Bool)) :=
  match l.asRatio?, r.asRatio? with
  | some a, some b => some (a, b)
  | _, _ => none

def onInts (f : Int -> Int -> Result Folded) : Result Folded := do
  let a <- l.asInt
  let b <- r.asInt
  f a b

def isTrue : Folded -> Bool
  | .text "true" => true
  | _ => false

def binary (op : BinaryOp) (l r : Folded) : Result Folded :=
  let numeric (f : Rat -> Bool -> Rat -> Bool -> Result Folded) : Result Folded :=
    (numbers? l r).elim (.error notConstant) fun ((a, ai), (b, bi)) => f a ai b bi
  let compare (f : Int -> Int -> Bool) : Result Folded := onInts l r fun a b => .ok (.bool (f a b))
  match op with
  | .power => numeric power
  | .multiplication => numeric fun a ai b bi => .ok (.ofRatio (ai && bi) (a * b))
  | .division => numeric fun a _ b bi => quotient a b bi
  | .modulo => numeric remainder
  | .addition => numeric fun a ai b bi => .ok (.ofRatio (ai && bi) (a + b))
  | .subtraction => numeric fun a ai b bi => .ok (.ofRatio (ai && bi) (a - b))
  | .leftShift => onInts l r fun a b => return .int (<- shiftLeft a b)
  | .rightShift => onInts l r fun a b => return .int (<- shiftRight a b)
  | .and => onInts l r fun a b => .ok (.int (bitwise .land a b))
  | .caret => onInts l r fun a b => .ok (.int (bitwise .xor a b))
  | .or => onInts l r fun a b => .ok (.int (bitwise .lor a b))
  | .less => compare fun a b => a < b
  | .lessEqual => compare fun a b => a ≤ b
  | .greater => compare fun a b => a > b
  | .greaterEqual => compare fun a b => a ≥ b
  | .equal => compare fun a b => a == b
  | .notEqual => compare fun a b => a != b
  | .andAnd => .ok (.bool (isTrue l && isTrue r))
  | .orOr => .ok (.bool (isTrue l || isTrue r))
  | _ => .error notConstant

def isOperand : Expr -> Bool
  | .literal .. | .binary .. | .unary .. | .name .. | .tuple .. | .conversion .. | .member .. => true
  | _ => false

def isTypeCall : Expr -> Bool
  | .call _ (.name _ (.builtinFunction "type()") _ _) [arg] _ _ _ _ _ _ =>
    (arg matches .typeName .. | .name _ (.enum _) _ _)
  | _ => false

def enumBound (greatest : Bool) (e : EnumId) : Folded :=
  .int (if greatest then ((p.enum e).values.length : Int) - 1 else 0)

def typeBound (greatest : Bool) : Expr -> Result Folded
  | .typeName _ (.elementary t) =>
    if greatest then do
      let some i <- t.max | return .unbounded
      return .int i
    else return .int (<- t.min)
  | .typeName _ _ => .error (.broken "")
  | .member _ (.name _ (.contract c) _ _) name _ =>
    match ((p.contract c).enums.values.find? fun e => (p.enum e).name == name) with
    | some e => .ok (enumBound p greatest e)
    | none => .error (.unbound "type_found_in_expression")
  | .member _ (.name ..) _ _ => .error (.broken "")
  | .member _ (.literal ..) _ _ => .error (.broken "")
  | .member _ o _ _ => .error (.lacks o.kindName "value")
  | .name _ (.enum e) _ _ => .ok (enumBound p greatest e)
  | _ => .error (.broken "")

def maxDepth : Nat := 1000

abbrev endless : Fault := .depth

def member (p : Program) : Nat -> Expr -> Result Folded
  | 0, _ => .error endless
  | fuel + 1, .member _ object name _ =>
    let bound := name == "min" || name == "max"
    match object with
    | .call _ called args _ _ _ _ _ _ =>
      if !bound then .error (.lacks object.kindName "value")
      else match called with
        | .name _ (.builtinFunction "type()") _ _ =>
          match args with
          | [arg] => typeBound p (name == "max") arg
          | _ => .error (.broken "")
        | _ => .error notConstant
    | .name _ (.enum e) _ _ =>
      match (p.enum e).values.findIdx? (· == name) with
      | some i => .ok (.int i)
      | none => .error (.badValue s!"{Text.quoted name} is not in list")
    | .name _ (.valueType _) _ _ => .ok .unset
    | .name _ (.contract c) _ _ =>
      match (p.contract c).vars.find? name with
      | none => .error notConstant
      | some v =>
        if !(p.var v).isConstant then .error notConstant
        else match (p.var v).expr with
          | some e@(.member ..) => do (<- member p fuel e).get
          | some (.literal _ v _ unit) => do (Folded.ofLiteral (<- v.inUnit unit)).toInteger
          | some e@(.unary ..) => (Folded.text (replace (p.exprText e) " " "")).toInteger
          | some e => .ok (.expr e)
          | none => .ok (.expr .omitted)
    | .name .. | .literal .. => .error notConstant
    | o => .error (.lacks o.kindName "value")
  | _ + 1, _ => .error notConstant

def call (called : Expr) (calledValue : Folded) (args : List Folded) : Result Folded := do
  let wraps := if let .member _ (.name _ (.valueType _) _ _) "wrap" _ := called then args.length == 1 else false
  if wraps then if let [v] := args then v.get else .error notConstant
  else
    match called with
    | .name .. | .member .. | .conversion .. | .unary .. => pure ()
    | e => throw (.lacks e.kindName "expression")
    let f <- calledValue.get
    let args <- args.mapM Folded.get
    match f with
    | .builtin t =>
      if p.targetText t == "keccak256(bytes)" then
        match args with
        | [] => throw .outOfRange
        | v :: _ => return .bytes (Hash.keccak256 (v.render p).toUTF8)
      else throw notConstant
    | v => throw (.lacks v.kindName "name")

/-- `unsigned`: the outcome is for a type without sign; `fuel` bounds the nesting. -/
def value (p : Program) (unsigned : Bool) : Nat -> Expr -> Result Folded
  | 0, _ => .error endless
  | fuel + 1, e => do
    let visit := value p unsigned fuel
    match e with
    | .omitted => return .unset
    | .assign _ _ l r _ | .index _ l r =>
      let _ <- visit l
      let _ <- visit r
      throw notConstant
    | .binary _ op l r =>
      let a <- visit l
      let b <- visit r
      if !isOperand l || !isOperand r then throw notConstant
      binary op (<- a.get) (<- b.get)
    | .call _ called args _ _ gas val salt _ =>
      let f <- visit called
      let vs <- (args.filter (!·.isOmitted)).mapM visit
      let _ <- [val, gas, salt].mapM visit
      if isTypeCall e then return .unset
      call p called f vs
    | .conditional _ c t f =>
      let _ <- visit c
      let _ <- visit f
      let _ <- visit t
      throw notConstant
    | .typeName .. => return .unset
    | .name _ target _ _ =>
      match target with
      | .var v =>
        if !(p.var v).isConstant then throw notConstant
        match (p.var v).expr with
        | some (.literal _ v _ unit) => (Folded.ofLiteral (<- v.inUnit unit)).toInteger
        | some e =>
          if isOperand e then (<- (<- visit e).get).settle unsigned |>.toInteger
          else throw (.broken "")
        | none => throw (.broken "")
      | .imported _ => throw (.broken "")
      | .builtinFunction _ | .customRevert _ => return .builtin target
      | .enum _ | .valueType _ | .contract _ => return .unset
      | _ => throw notConstant
    | .literal _ v t unit =>
      let v := .ofLiteral (<- v.inUnit unit)
      match t with
      | .elementary .bool | .elementary .string => return v
      | _ =>
        match v.toNumber with
        | .error (.badValue _) => throw notConstant
        | r => r
    | .member _ o _ _ =>
      let _ <- visit o
      member p fuel e
    | .newArray .. | .newContract .. | .newElementary .. => throw notConstant
    | .tuple _ es =>
      let vs <- (es.filter (!·.isOmitted)).mapM visit
      match es, vs with
      | [.omitted], _ => throw notConstant
      | [.member ..], _ => throw notConstant
      | [x], [v] => if isOperand x then ((<- v.get).settle unsigned).toNumber else throw notConstant
      | _, _ => throw notConstant
    | .conversion _ x t =>
      let v <- visit x
      let ok := if let .call .. := x then true else isOperand x
      if !ok then throw notConstant
      let v := (<- v.get).settle unsigned
      match v with
      | .bytes bs => if startsWith (p.typeText t) "uint" then return .int (Hash.bytesToNat bs) else v.toNumber
      | .int i => if startsWith (p.typeText t) "byte" then wordBytes i else v.toNumber
      | .bool b => if startsWith (p.typeText t) "byte" then wordBytes (if b then 1 else 0) else v.toNumber
      | v => v.toNumber
    | .unary _ op x =>
      let v <- visit x
      if op != .minus then throw notConstant
      let number <- match x with
        | .literal _ v _ unit => (Folded.ofLiteral (<- v.inUnit unit)).toNumber
        | .binary .. | .unary .. | .name .. | .tuple .. | .conversion .. => ((<- v.get).settle unsigned).toNumber
        | _ => throw (.broken "")
      match number with
      | .int i => return .int (-i)
      | .ratio q => return .ratio (-q)
      | v => return v
where
  wordBytes (i : Int) : Result Folded :=
    if i < 0 then .error (.overflow "can't convert negative int to unsigned")
    else if Int.pow 2 256 ≤ i then .error (.overflow "int too big to convert")
    else .ok (.bytes ((List.range 32).map fun k => UInt8.ofNat (i.toNat / Nat.pow 256 (31 - k) % 256)))

end Fold

def Program.fold (p : Program) (type : String) (e : Expr) : Result Folded := do
  let unsigned := startsWith type "uint"
  return (<- (<- Fold.value p unsigned Fold.maxDepth e).get).settle unsigned

end ContractAudit
