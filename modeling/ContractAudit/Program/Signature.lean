import ContractAudit.Hash.Sponge
import ContractAudit.Program.Basic

/-! # Declarations in words -/

namespace ContractAudit

namespace LiteralValue

def render : LiteralValue -> String
  | text s => s
  | int i => toString i
  | bool b => Text.ofBool b
  | bytes bs => Text.quotedBytes bs

def number : LiteralValue -> Result Rat
  | text s => Number.literal s
  | int i => .ok i
  | bool b => .ok (if b then 1 else 0)
  | bytes bs => .ok ((Hash.bytesToNat bs : Int) : Rat)

def inUnit (v : LiteralValue) (unit : Option String) : Result LiteralValue :=
  match unit with
  | some u => if u == "" then .ok v else return .int (<- Number.inUnit (<- v.number) u)
  | none => .ok v

def renderInUnit (v : LiteralValue) (unit : Option String) : String :=
  match v.inUnit unit with
  | .ok v => v.render
  | .error _ => v.render

end LiteralValue

namespace Program

variable (p : Program) (f : FunctionId) (v : VariableId) (n : Node)

def ownedName (p : Program) (name : String) : Owner -> String
  | .contract c => (p.contract c).name ++ "." ++ name
  | .topLevel _ => name

mutual
def typeText (p : Program) : Ty -> String
  | .elementary t => t.name
  | .array element length => p.typeText element ++
    match length with
    | some l => "[" ++ l.shown ++ "]"
    | none => "[]"
  | .mapping key value => "mapping(" ++ p.typeText key ++ " => " ++ p.typeText value ++ ")"
  | .function params returns _ _ =>
    let params := ",".intercalate (p.typeTexts params)
    let returns := ",".intercalate (p.typeTexts returns)
    "function(" ++ params ++ ")" ++ (if returns == "" then "" else " returns(" ++ returns ++ ")")
  | .contract c => (p.contract c).name
  | .struct s => p.ownedName (p.struct s).name (p.struct s).owner
  | .enum e => p.ownedName (p.enum e).name (p.enum e).owner
  | .valueType v => p.ownedName (p.valueType v).name (p.valueType v).owner
  | .information subject => "type(" ++ p.subjectName subject ++ ")"

def typeTexts (p : Program) : List Ty -> List String
  | [] => []
  | t :: ts => p.typeText t :: p.typeTexts ts

def subjectName (p : Program) : Ty -> String
  | .enum e => (p.enum e).name
  | t => p.typeText t
end

def typeText? (t : Option Ty) : String := t.elim "None" p.typeText

def variableTypeText : String := p.typeText? (p.var v).type

def functionName : String :=
  let f := p.function f
  let written := f.writtenName.getD ""
  if !f.kindKnown then written
  else match f.kind with
    | .constructor => if written == "" then "constructor" else written
    | .fallback => if written == "" then "fallback" else written
    | .receive => "receive"
    | .constructorVariables => "slitherConstructorVariables"
    | .constructorConstantVariables => "slitherConstructorConstantVariables"
    | .normal => written

def parameterTexts : List String := (p.function f).parameters.map p.variableTypeText

def returnTexts : List String := (p.function f).returns.map p.variableTypeText

def parenthesized (xs : List String) : String := "(" ++ ",".intercalate xs ++ ")"

def functionFullName : String :=
  ".".intercalate ((p.function f).innerScope ++ [p.functionName f]) ++ parenthesized (p.parameterTexts f)

def functionCanonicalName : String :=
  let fn := p.function f
  match fn.fixedName with
  | some n => n
  | none =>
    let owner := match fn.place with
      | .inContract _ declarer => [(p.contract declarer).name]
      | .topLevel _ => []
    ".".intercalate (owner ++ fn.innerScope ++ [p.functionName f]) ++ parenthesized (p.parameterTexts f)

def functionSignature : String :=
  p.functionName f ++ parenthesized (p.parameterTexts f) ++ " returns" ++ parenthesized (p.returnTexts f)

def functionContract? : Option ContractId :=
  match (p.function f).place with
  | .inContract c _ => some c
  | .topLevel _ => none

def functionDeclarer? : Option ContractId :=
  match (p.function f).place with
  | .inContract _ d => some d
  | .topLevel _ => none

def eventFullName (e : EventId) : String :=
  (p.event e).name ++ parenthesized ((p.event e).parameters.map p.variableTypeText)

def variableCanonicalName : String :=
  let v := p.var v
  match v.kind with
  | .state c => (p.contract c).name ++ "." ++ v.name
  | .inFunction (some f) _ => p.functionCanonicalName f ++ "." ++ v.name
  | _ => v.name

def targetSource? : Target -> Option Source
  | .var v => some (p.var v).source
  | .func f => some (p.function f).source
  | .contract c => some (p.contract c).source
  | .struct s => some (p.struct s).source
  | .enum e => some (p.enum e).source
  | .event e => some (p.event e).source
  | .error e => some (p.error e).source
  | .valueType v => some (p.valueType v).source
  | _ => none

def targetText : Target -> String
  | .var v => (p.var v).name
  | .func f => p.functionName f
  | .contract c => (p.contract c).name
  | .struct s => (p.struct s).name
  | .enum e => (p.enum e).name
  | .event e => (p.event e).name
  | .error e | .customRevert e => "revert " ++ ((p.error e).signature.getD "")
  | .valueType v => p.typeText (.valueType v)
  | .imported i => (p.import_ i).aliasName.getD ""
  | .builtin n | .member n | .builtinFunction n | .opcode n => n

def targetCanonicalName : Target -> String
  | .var v => p.variableCanonicalName v
  | .func f => p.functionCanonicalName f
  | .struct s => (p.struct s).canonicalName
  | .enum e => (p.enum e).canonicalName
  | .event e =>
    match (p.event e).owner with
    | .contract c => (p.contract c).name ++ "." ++ p.eventFullName e
    | .topLevel _ => (p.event e).name
  | .error e => p.ownedName ((p.error e).fullName.getD "") (p.error e).owner
  | t => p.targetText t

mutual
def exprText (p : Program) : Expr -> String
  | .omitted => "None"
  | .assign _ op l r _ => p.exprText l ++ " " ++ op.sign ++ " " ++ p.exprText r
  | .binary _ op l r => p.exprText l ++ " " ++ op.sign ++ " " ++ p.exprText r
  | .call _ called args names _ gas value salt _ =>
    let options :=
      if gas.isOmitted && value.isOmitted then ""
      else
        let parts := [("gas: ", gas.isOmitted, p.exprText gas),
          ("value: ", value.isOmitted, p.exprText value), ("salt: ", salt.isOmitted, p.exprText salt)]
        "\x7b" ++ ",".intercalate ((parts.filter fun x => !x.2.1).map fun x => x.1 ++ x.2.2) ++ "\x7d"
    let texts := p.exprTexts args
    let inner := match names with
      | some names =>
        "\x7b" ++ ",".intercalate ((names.zip texts).map fun (n, t) => n ++ ":" ++ t) ++ "\x7d"
      | none => ",".intercalate texts
    p.exprText called ++ options ++ "(" ++ inner ++ ")"
  | .conditional _ c t e => "if " ++ p.exprText c ++ " then " ++ p.exprText t ++ " else " ++ p.exprText e
  | .typeName _ t => p.typeText t
  | .name _ t .plain _ => p.targetText t
  | .name _ t .viaSuper _ => "super." ++ p.targetText t
  | .name _ t .viaSelf _ => "self." ++ p.targetText t
  | .index _ l r => p.exprText l ++ "[" ++ p.exprText r ++ "]"
  | .literal _ v _ unit => v.renderInUnit unit
  | .member _ o n _ => p.exprText o ++ "." ++ n
  | .newArray _ t | .newContract _ t => "new " ++ p.typeText t
  | .newElementary _ t => "new " ++ t.name
  | .tuple _ es => parenthesized (p.exprTexts es)
  | .conversion _ e t => p.typeText t ++ "(" ++ p.exprText e ++ ")"
  | .unary _ op e => if op.isBefore then op.sign ++ " " ++ p.exprText e else p.exprText e ++ " " ++ op.sign

def exprTexts (p : Program) : List Expr -> List String
  | [] => []
  | e :: es => p.exprText e :: p.exprTexts es
end

def exprText? (e : Option Expr) : String := e.elim "None" p.exprText

def nodeExprText : String := p.exprText? n.expr

def nodeText : String :=
  let detail := match n.expr, n.declared with
    | some e, _ => " " ++ p.exprText e
    | none, some v => " " ++ (p.var v).name
    | none, none => ""
  n.kind.label ++ detail

def isStorageLocal : Bool :=
  let v := p.var v
  match v.location with
  | some "memory" | some "calldata" | some "reference_to_storage" => false
  | some "storage" => true
  | _ => v.type matches some (.array _ _) | some (.mapping _ _) | some (.struct _)

def localByName? (name : String) : Option VariableId :=
  (p.function f).vars.values.find? fun v => (p.var v).name == name

def stateByName? (c : ContractId) (name : String) : Option VariableId :=
  (p.contract c).vars.values.find? fun v => (p.var v).name == name

end Program

/-! ## Types and signatures -/

mutual
def Ty.weight : Ty -> Nat
  | .array t _ | .information t => t.weight + 1
  | .mapping k v => k.weight + v.weight + 1
  | .function ps rs _ _ => Ty.weights ps + Ty.weights rs + 1
  | _ => 1

def Ty.weights : List Ty -> Nat
  | [] => 0
  | t :: ts => t.weight + Ty.weights ts
end

inductive SignatureType where
  | type (t : Option Ty)
  | tuple (members : List SignatureType)

namespace Program

variable (p : Program) (v : VariableId)

def structMembers (s : StructId) : List VariableId :=
  let s := p.struct s
  s.order.filterMap fun n => Table.find? n s.members

/-- The structures have one name and the same members, in this program and in another one. -/
def sameStructAs (q : Program) (a b : StructId) : Bool :=
  let ma := p.structMembers a
  let mb := q.structMembers b
  (p.struct a).name == (q.struct b).name && ma.length == mb.length &&
    (ma.zip mb).all fun (x, y) => p.variableTypeText x == q.variableTypeText y && (p.var x).name == (q.var y).name

def sameStruct (a b : StructId) : Bool := a == b || p.sameStructAs p a b

/-- Structures go by their names and members. -/
def sameTarget : Target -> Target -> Bool
  | .struct a, .struct b => p.sameStruct a b
  | a, b => a == b

/-- Contracts and structures go by what they look like and function types by their variables. Other declarations of different
units are never the same. -/
def sameTypeAs (p q : Program) (inOneUnit : Bool) : Ty -> Ty -> Bool
  | .elementary a, .elementary b => a == b
  | .array a la, .array b lb =>
    p.sameTypeAs q inOneUnit a b && (la.map fun l => (l.value, l.unit)) == (lb.map fun l => (l.value, l.unit))
  | .mapping ka va, .mapping kb vb => p.sameTypeAs q inOneUnit ka kb && p.sameTypeAs q inOneUnit va vb
  | .function _ _ pa ra, .function _ _ pb rb => pa == pb && ra == rb && (inOneUnit || pa.isEmpty && ra.isEmpty)
  | .contract a, .contract b => (p.contract a).name == (q.contract b).name
  | .struct a, .struct b => inOneUnit && a == b || p.sameStructAs q a b
  | .enum a, .enum b | .valueType a, .valueType b => inOneUnit && a == b
  | .information a, .information b => p.sameTypeAs q inOneUnit a b
  | _, _ => false

def sameType : Ty -> Ty -> Bool := p.sameTypeAs p true

def sameType? : Option Ty -> Option Ty -> Bool
  | some a, some b => p.sameType a b
  | none, none => true
  | _, _ => false

def typeSeen (seen : List Ty) (t : Ty) : Bool :=
  seen.any fun s => p.sameType s t && p.typeText s == p.typeText t

def typeBound (t : Option Ty) : Nat :=
  p.variableTable.foldl (fun n v => n + (v.type.map Ty.weight).getD 0) ((t.map Ty.weight).getD 0 + 1)

def enumBits (values : Nat) : Nat :=
  if values ≤ 256 then 8 else if values ≤ 65536 then 16 else Nat.log2 values

def interfaceType : Ty -> Ty
  | .contract _ => .address
  | .enum e => .elementary (.uint (enumBits (p.enum e).values.length))
  | .valueType v => .elementary (p.valueType v).underlying
  | t => t

/-- A type that was met before stays as it is. -/
def signatureType (p : Program) : Nat -> Option Ty -> StateM (List Ty) SignatureType
  | fuel + 1, some t => do
    if p.typeSeen (<- get) t then return .type (some t)
    modify (t :: ·)
    match t with
    | .struct s => return .tuple (<- (p.structMembers s).mapM fun v => p.signatureType fuel (p.var v).type)
    | t => return .type (some (p.interfaceType t))
  | _, t => return .type t

/-- Arrays are written without their length. -/
def signatureText (p : Program) : Nat -> SignatureType -> StateM (List Ty) String
  | fuel + 1, .type (some (.array element _)) => do
    return (<- p.signatureText fuel (<- p.signatureType fuel (some element))) ++ "[]"
  | fuel + 1, .tuple ts => return parenthesized (<- ts.mapM (p.signatureText fuel))
  | _, .type t => return p.typeText? t
  | _, _ => return ""

/-- No structure is met twice on the way into a type. -/
def nestingBound (t : Option Ty) : Nat := (p.structTable.size + 1) * (p.typeBound t + 2)

def typeInSignature (t : Option Ty) : String :=
  let bound := p.nestingBound t
  ((do p.signatureText bound (<- p.signatureType bound t) : StateM _ _).run []).1

def soliditySignature (f : FunctionId) : String :=
  p.functionName f ++ parenthesized ((p.function f).parameters.map fun v => p.typeInSignature (p.var v).type)

def keyTypesWithin (p : Program) (bound : Nat) : Ty -> StateM (List Ty) (List SignatureType)
  | .mapping k v => do
    let here := match <- p.signatureType bound (some k) with
      | .tuple ts => ts
      | t => [t]
    return here ++ (<- p.keyTypesWithin bound v)
  | .array t _ => return .type (some .uint256) :: (<- p.keyTypesWithin bound t)
  | _ => return []

def keyTypes (t : Ty) : List SignatureType := ((p.keyTypesWithin (p.nestingBound (some t)) t).run []).1

def keyText (p : Program) : SignatureType -> String
  | .type t => p.typeText? t
  | .tuple ts => Text.bracketed (ts.attach.map fun ⟨t, _⟩ => p.keyText t)

def getterParameters : List String :=
  match (p.var v).type with
  | some t => (p.keyTypes t).map p.keyText
  | none => []

/-- Inside a structure mappings and arrays are left out. -/
def resultTypes (p : Program) : Nat -> Bool -> Option Ty -> List (Option Ty)
  | 0, _, _ => []
  | fuel + 1, nested, some (.mapping _ v) => if nested then [] else p.resultTypes fuel false (some v)
  | fuel + 1, nested, some (.array t _) => if nested then [] else p.resultTypes fuel false (some t)
  | fuel + 1, _, some (.struct s) =>
    (p.structMembers s).flatMap fun m => p.resultTypes fuel true (p.var m).type
  | _ + 1, _, t => [t]

def getterResults : List String :=
  let t := (p.var v).type
  (p.resultTypes (p.typeBound t + 1) false t).map p.typeText?

def getterSignature : String := (p.var v).name ++ parenthesized (p.getterParameters v)

def getterText : String := p.getterSignature v ++ " returns" ++ parenthesized (p.getterResults v)

def isAddressLike (t : Ty) : Bool := t matches .elementary .address | .contract _

def settleError (e : ErrorId) : Program :=
  let err := p.error e
  let types := err.parameters.filterMap fun v => (p.var v).type
  let solidity := types.map fun t => if isAddressLike t then "address" else p.typeText t
  p.modifyError e fun err => { err with
    fullName := some (err.name ++ parenthesized (types.map p.typeText))
    signature := some (err.name ++ parenthesized solidity) }

end Program

end ContractAudit
