import ContractAudit.Expr

/-! # Operations

An operation reads values and may write one. Values are variables, constants and the results of other operations.
-/

namespace ContractAudit.Ir

inductive Value where
  | target (t : Target)
  | constant (c : Constant)
  | temporary (i : Nat)
  | reference (i : Nat)
  | tuple (i : Nat)
  | version (i : Nat)
  | versionReference (i : Nat)
  | type (t : Ty)
  | file (i : ImportId)
  | list (items : List Value)
  | absent
  deriving Inhabited

namespace Value

abbrev var (v : VariableId) : Value := .target (.var v)
abbrev func (f : FunctionId) : Value := .target (.func f)
abbrev contract (c : ContractId) : Value := .target (.contract c)

def this : Value := .target (.builtin "this")

def isAbsent : Value -> Bool
  | absent => true
  | _ => false

def isConstant : Value -> Bool
  | constant _ => true
  | _ => false

def isReference : Value -> Bool
  | reference _ | versionReference _ => true
  | _ => false

def isTuple : Value -> Bool
  | tuple _ => true
  | _ => false

def isTemporary : Value -> Bool
  | temporary _ => true
  | _ => false

def isFunction : Value -> Bool
  | target (.func _) => true
  | _ => false

def isContract : Value -> Bool
  | target (.contract _) => true
  | _ => false

def isBuiltin : Value -> Bool
  | target (.builtin _) | target (.member _) => true
  | _ => false

def isIntermediate : Value -> Bool
  | temporary _ | reference _ | versionReference _ | tuple _ => true
  | _ => false

def isVariable : Value -> Bool
  | target (.var _) | target (.imported _) | constant _ | temporary _ | reference _ | tuple _ | version _
  | versionReference _ => true
  | _ => false

/-- Constants go by their values. -/
def same : Value -> Value -> Bool
  | target a, target b => a == b
  | constant a, constant b => a.value.same b.value
  | temporary i, temporary j | reference i, reference j | tuple i, tuple j | version i, version j
  | versionReference i, versionReference j | file i, file j => i == j
  | type (.elementary a), type (.elementary b) => a == b
  | absent, absent => true
  | _, _ => false

mutual
def flat : Value -> List Value
  | list items => flatAll items
  | v => [v]

def flatAll : List Value -> List Value
  | [] => []
  | v :: vs => flat v ++ flatAll vs
end

def addNew (v : Value) (vs : List Value) : List Value := if vs.any (same v) then vs else vs ++ [v]

def distinct (vs : List Value) : List Value := vs.foldl (fun seen v => addNew v seen) []

end Value

inductive TypeItem where
  | type (t : Option Ty)
  | value (v : Value)

inductive ValueTyping where
  | unknown
  | one (t : Ty)
  | several (ts : List TypeItem)
  | function (f : FunctionId)

namespace ValueTyping

def ofOption : Option Ty -> ValueTyping
  | some t => one t
  | none => unknown

def isUnknown : ValueTyping -> Bool
  | unknown | several [] => true
  | _ => false

def ty? : ValueTyping -> Option Ty
  | one t => some t
  | _ => none

def elementary? : ValueTyping -> Option Elementary
  | one (.elementary t) => some t
  | _ => none

def isArray : ValueTyping -> Bool
  | one (.array _ _) => true
  | _ => false

def isAddress (t : ValueTyping) : Bool := t.elementary? == some .address

def struct? : ValueTyping -> Option StructId
  | one (.struct s) => some s
  | _ => none

def contract? : ValueTyping -> Option ContractId
  | one (.contract c) => some c
  | _ => none

end ValueTyping

/-! ## Operations -/

inductive CallKind where
  | highLevel (destination : Value) (name : Constant) (callee : Option Target)
  | library (destination : Value) (name : Constant) (callee : Option Target)
  | internal (callee : Option FunctionId) (name contract : String)
  | dynamic (callee : Value) (type : Ty)
  | lowLevel (destination : Value) (name : Constant)
  | builtin (callee : Target)
  | event (name : String)
  | newArray (type : Ty)
  | newContract (type : Ty)
  | newElementary (type : Elementary)
  | newStruct (struct : StructId)
  | send (destination amount : Value)
  | transfer (destination amount : Value)

structure Call where
  kind : CallKind
  result : Option Value := none
  arguments : List Value := []
  names : Option (List String) := none
  value : Option Value := none
  gas : Option Value := none
  salt : Option Value := none
  key : Option String := none
  typeText : String := ""
  candidates : List FunctionId := []

inductive Op where
  | assign (result value : Value)
  | binary (result : Value) (op : BinaryOp) (left right : Value)
  | unary (result : Value) (op : UnaryOp) (value : Value)
  | conversion (result value : Value) (type : Ty)
  | index (result left right : Value)
  | member (result left : Value) (name : Constant)
  | length (result value : Value)
  | codeSize (result value : Value)
  | delete (result value : Value)
  | initArray (result : Value) (values : List Value)
  | unpack (result tuple : Value) (index : Nat)
  | condition (value : Value)
  | returns (values : List Value)
  | call (c : Call)
  | phi (result : Value) (values : List Value) (nodes : List NodeId)
  | phiCallback (result : Value) (values : List Value) (call : Call) (unchanged : Value)
  | nop

structure Instr where
  op : Op
  expr : Option Expr := none

namespace CallKind

def isHighLevel : CallKind -> Bool
  | highLevel .. | library .. => true
  | _ => false

def isLibrary : CallKind -> Bool
  | library .. => true
  | _ => false

def mapM {m : Type -> Type} [Monad m] (f : Value -> m Value) : CallKind -> m CallKind
  | highLevel d n g => return highLevel (<- f d) n g
  | library d n g => return library (<- f d) n g
  | dynamic g t => return dynamic (<- f g) t
  | lowLevel d n => return lowLevel (<- f d) n
  | send d v => return send (<- f d) (<- f v)
  | transfer d v => return transfer (<- f d) (<- f v)
  | k => return k

end CallKind

def Call.reads (c : Call) : List Value :=
  let options (vs : List (Option Value)) : List Value := vs.filterMap id
  let arguments := Value.flatAll c.arguments
  match c.kind with
  | .highLevel d _ _ | .library d _ _ => d :: options [c.gas, c.value] ++ arguments.filter (!·.isAbsent)
  | .lowLevel d _ => d :: options [c.gas, c.value] ++ arguments
  | .dynamic f _ => arguments ++ [f]
  | .newContract _ => options [c.salt, c.value] ++ arguments.filter (!·.isAbsent)
  | .newElementary _ => c.arguments
  | .send d v | .transfer d v => [d, v]
  | .internal .. | .builtin _ | .event _ | .newArray _ | .newStruct _ => arguments

def Call.mapM {m : Type -> Type} [Monad m] (f : Value -> m Value) (c : Call) : m Call :=
  return { c with
    kind := <- c.kind.mapM f, result := <- c.result.mapM f, arguments := <- c.arguments.mapM f
    value := <- c.value.mapM f, gas := <- c.gas.mapM f, salt := <- c.salt.mapM f }

namespace Op

def lvalue? : Op -> Option Value
  | assign r _ | binary r _ _ _ | unary r _ _ | conversion r _ _ | index r _ _ | member r _ _ | length r _
  | codeSize r _ | delete r _ | initArray r _ | unpack r _ _ | phi r _ _ | phiCallback r _ _ _ => some r
  | call c => c.result
  | condition _ | returns _ | nop => none

def reads : Op -> List Value
  | assign _ v | unary _ _ v | conversion _ v _ | length _ v | codeSize _ v | delete _ v | condition v => [v]
  | unpack _ t _ => [t]
  | binary _ _ a b | index _ a b => [a, b]
  | member _ a n => [a, .constant n]
  | initArray _ vs => Value.flatAll vs
  | returns vs => vs
  | phi _ vs _ | phiCallback _ vs _ _ => vs
  | call c => c.reads
  | nop => []

def isPhi : Op -> Bool
  | phi .. | phiCallback .. => true
  | _ => false

def isAccess : Op -> Bool
  | index .. | member .. => true
  | _ => false

def withLvalue (r : Value) : Op -> Op
  | assign _ v => assign r v
  | binary _ op a b => binary r op a b
  | unary _ op v => unary r op v
  | conversion _ v t => conversion r v t
  | index _ a b => index r a b
  | member _ a n => member r a n
  | length _ v => length r v
  | codeSize _ v => codeSize r v
  | delete _ v => delete r v
  | initArray _ vs => initArray r vs
  | unpack _ t i => unpack r t i
  | phi _ vs ns => phi r vs ns
  | phiCallback _ vs c u => phiCallback r vs c u
  | call c => call { c with result := some r }
  | op => op

def mapM {m : Type -> Type} [Monad m] (f : Value -> m Value) : Op -> m Op
  | assign r v => return assign (<- f r) (<- f v)
  | binary r op a b => return binary (<- f r) op (<- f a) (<- f b)
  | unary r op v => return unary (<- f r) op (<- f v)
  | conversion r v t => return conversion (<- f r) (<- f v) t
  | index r a b => return index (<- f r) (<- f a) (<- f b)
  | member r a n => return member (<- f r) (<- f a) n
  | length r v => return length (<- f r) (<- f v)
  | codeSize r v => return codeSize (<- f r) (<- f v)
  | delete r v => return delete (<- f r) (<- f v)
  | initArray r vs => return initArray (<- f r) (<- vs.mapM f)
  | unpack r t i => return unpack (<- f r) (<- f t) i
  | condition v => return condition (<- f v)
  | returns vs => return returns (<- vs.mapM f)
  | call c => return call (<- c.mapM f)
  | op => return op

def kindName : Op -> String
  | assign .. => "Assignment"
  | binary .. => "Binary"
  | unary .. => "Unary"
  | conversion .. => "TypeConversion"
  | index .. => "Index"
  | member .. => "Member"
  | length .. => "Length"
  | codeSize .. => "CodeSize"
  | delete .. => "Delete"
  | initArray .. => "InitArray"
  | unpack .. => "Unpack"
  | condition _ => "Condition"
  | returns _ => "Return"
  | phi .. => "Phi"
  | phiCallback .. => "PhiCallback"
  | nop => "Nop"
  | call c => match c.kind with
    | .highLevel .. => "HighLevelCall"
    | .library .. => "LibraryCall"
    | .internal .. => "InternalCall"
    | .dynamic .. => "InternalDynamicCall"
    | .lowLevel .. => "LowLevelCall"
    | .builtin _ => "SolidityCall"
    | .event _ => "EventCall"
    | .newArray _ => "NewArray"
    | .newContract _ => "NewContract"
    | .newElementary _ => "NewElementaryType"
    | .newStruct _ => "NewStructure"
    | .send .. => "Send"
    | .transfer .. => "Transfer"

end Op

end ContractAudit.Ir

namespace ContractAudit.BinaryOp

def isTruth : BinaryOp -> Bool
  | orOr | andAnd | less | greater | lessEqual | greaterEqual | equal | notEqual => true
  | _ => false

def mayOverflow : BinaryOp -> Bool
  | power | multiplication | addition | subtraction | division => true
  | _ => false

def unsigned? : BinaryOp -> Option BinaryOp
  | divisionSigned => some division
  | moduloSigned => some modulo
  | lessSigned => some less
  | greaterSigned => some greater
  | rightShiftArithmetic => some rightShift
  | _ => none

end ContractAudit.BinaryOp

namespace ContractAudit.AssignOp

def binary? : AssignOp -> Option BinaryOp
  | assign => none
  | or => some .or
  | caret => some .caret
  | and => some .and
  | leftShift => some .leftShift
  | rightShift => some .rightShift
  | addition => some .addition
  | subtraction => some .subtraction
  | multiplication => some .multiplication
  | division => some .division
  | modulo => some .modulo

end ContractAudit.AssignOp
