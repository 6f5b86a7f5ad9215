import ContractAudit.Source.Position
import ContractAudit.Types

/-! # Expressions

Names are resolved. Each node has a key of its own, so that two expressions that read alike can be told apart.
-/

namespace ContractAudit

inductive UnaryOp where
  | bang | tilde | delete | incrementBefore | decrementBefore | incrementAfter | decrementAfter
  | plus | minus
  deriving DecidableEq

namespace UnaryOp

def ofSign (sign : String) (before : Bool) : Result UnaryOp :=
  if before then match sign with
    | "!" => .ok bang
    | "~" => .ok tilde
    | "delete" => .ok delete
    | "++" => .ok incrementBefore
    | "--" => .ok decrementBefore
    | "+" => .ok plus
    | "-" => .ok minus
    | _ => .error (.model s!"get_type: Unknown operation type {sign}")
  else match sign with
    | "++" => .ok incrementAfter
    | "--" => .ok decrementAfter
    | _ => .error (.model s!"get_type: Unknown operation type {sign}")

def sign : UnaryOp -> String
  | bang => "!"
  | tilde => "~"
  | delete => "delete"
  | incrementBefore | incrementAfter => "++"
  | decrementBefore | decrementAfter => "--"
  | plus => "+"
  | minus => "-"

def isBefore : UnaryOp -> Bool
  | incrementAfter | decrementAfter => false
  | _ => true

def writes : UnaryOp -> Bool
  | delete | incrementBefore | decrementBefore | incrementAfter | decrementAfter => true
  | _ => false

end UnaryOp

inductive BinaryOp where
  | power | multiplication | division | modulo | addition | subtraction | leftShift | rightShift
  | and | caret | or | less | greater | lessEqual | greaterEqual | equal | notEqual | andAnd | orOr
  | divisionSigned | moduloSigned | lessSigned | greaterSigned | rightShiftArithmetic
  deriving DecidableEq

namespace BinaryOp

def sign : BinaryOp -> String
  | power => "**"
  | multiplication => "*"
  | division => "/"
  | modulo => "%"
  | addition => "+"
  | subtraction => "-"
  | leftShift => "<<"
  | rightShift => ">>"
  | and => "&"
  | caret => "^"
  | or => "|"
  | less => "<"
  | greater => ">"
  | lessEqual => "<="
  | greaterEqual => ">="
  | equal => "=="
  | notEqual => "!="
  | andAnd => "&&"
  | orOr => "||"
  | divisionSigned => "/'"
  | moduloSigned => "%'"
  | lessSigned => "<'"
  | greaterSigned => ">'"
  | rightShiftArithmetic => ">>'"

def name : BinaryOp -> String
  | power => "POWER"
  | multiplication => "MULTIPLICATION"
  | division => "DIVISION"
  | modulo => "MODULO"
  | addition => "ADDITION"
  | subtraction => "SUBTRACTION"
  | leftShift => "LEFT_SHIFT"
  | rightShift => "RIGHT_SHIFT"
  | and => "AND"
  | caret => "CARET"
  | or => "OR"
  | less => "LESS"
  | greater => "GREATER"
  | lessEqual => "LESS_EQUAL"
  | greaterEqual => "GREATER_EQUAL"
  | equal => "EQUAL"
  | notEqual => "NOT_EQUAL"
  | andAnd => "ANDAND"
  | orOr => "OROR"
  | divisionSigned => "DIVISION_SIGNED"
  | moduloSigned => "MODULO_SIGNED"
  | lessSigned => "LESS_SIGNED"
  | greaterSigned => "GREATER_SIGNED"
  | rightShiftArithmetic => "RIGHT_SHIFT_ARITHMETIC"

def all : List BinaryOp :=
  [power, multiplication, division, modulo, addition, subtraction, leftShift, rightShift, and,
   caret, or, less, greater, lessEqual, greaterEqual, equal, notEqual, andAnd, orOr,
   divisionSigned, moduloSigned, lessSigned, greaterSigned, rightShiftArithmetic]

def ofSign (sign : String) : Result BinaryOp :=
  expect (all.find? (·.sign == sign)) (.model s!"get_type: Unknown operation type {sign})")

end BinaryOp

inductive AssignOp where
  | assign | or | caret | and | leftShift | rightShift | addition | subtraction | multiplication
  | division | modulo
  deriving DecidableEq

namespace AssignOp

def sign : AssignOp -> String
  | assign => "="
  | or => "|="
  | caret => "^="
  | and => "&="
  | leftShift => "<<="
  | rightShift => ">>="
  | addition => "+="
  | subtraction => "-="
  | multiplication => "*="
  | division => "/="
  | modulo => "%="

def all : List AssignOp :=
  [assign, or, caret, and, leftShift, rightShift, addition, subtraction, multiplication, division, modulo]

def ofSign (sign : String) : Result AssignOp :=
  expect (all.find? (·.sign == sign)) (.model s!"get_type: Unknown operation type {sign})")

end AssignOp

/-! ## Expressions -/

structure ExprInfo where
  key : Nat := 0
  source : Source := {}
  written : Bool := false

inductive NameForm where
  | plain
  | viaSuper
  | viaSelf

inductive AssignedType where
  | text (s : String)
  | type (t : Option Ty)

inductive Expr where
  | omitted
  | assign (info : ExprInfo) (op : AssignOp) (left right : Expr) (type : AssignedType)
  | binary (info : ExprInfo) (op : BinaryOp) (left right : Expr)
  /-- With the names of arguments if given, the type in words, and the options `gas`, `value` and `salt`. -/
  | call (info : ExprInfo) (called : Expr) (args : List Expr) (names : Option (List String))
      (type : String) (gas value salt : Expr) (viaSuper : Bool)
  | conditional (info : ExprInfo) (condition whenTrue whenFalse : Expr)
  | typeName (info : ExprInfo) (type : Ty)
  | name (info : ExprInfo) (target : Target) (form : NameForm) (type : Option Ty)
  | index (info : ExprInfo) (left right : Expr)
  | literal (info : ExprInfo) (value : LiteralValue) (type : Ty) (unit : Option String)
  | member (info : ExprInfo) (object : Expr) (name : String) (type : String)
  | newArray (info : ExprInfo) (type : Ty)
  | newContract (info : ExprInfo) (type : Ty)
  | newElementary (info : ExprInfo) (type : Elementary)
  | tuple (info : ExprInfo) (items : List Expr)
  | conversion (info : ExprInfo) (expr : Expr) (type : Ty)
  | unary (info : ExprInfo) (op : UnaryOp) (expr : Expr)

namespace Expr

def isOmitted : Expr -> Bool
  | omitted => true
  | _ => false

def info : Expr -> ExprInfo
  | omitted => {}
  | assign i _ _ _ _ | binary i _ _ _ | call i _ _ _ _ _ _ _ _ | conditional i _ _ _
  | typeName i _ | name i _ _ _ | index i _ _ | literal i _ _ _ | member i _ _ _ | newArray i _
  | newContract i _ | newElementary i _ | tuple i _ | conversion i _ _ | unary i _ _ => i

def mapInfo (f : ExprInfo -> ExprInfo) : Expr -> Expr
  | omitted => omitted
  | assign i op l r t => assign (f i) op l r t
  | binary i op l r => binary (f i) op l r
  | call i c a n t g v s u => call (f i) c a n t g v s u
  | conditional i c t e => conditional (f i) c t e
  | typeName i t => typeName (f i) t
  | name i t form ty => name (f i) t form ty
  | index i l r => index (f i) l r
  | literal i v t u => literal (f i) v t u
  | member i e n t => member (f i) e n t
  | newArray i t => newArray (f i) t
  | newContract i t => newContract (f i) t
  | newElementary i t => newElementary (f i) t
  | tuple i es => tuple (f i) es
  | conversion i e t => conversion (f i) e t
  | unary i op e => unary (f i) op e

def source (e : Expr) : Source := e.info.source

def markWritten : Expr -> Expr := mapInfo fun i => { i with written := true }

def withSource (s : Source) : Expr -> Expr := mapInfo fun i => { i with source := s }

mutual
def hasConditional : Expr -> Bool
  | conditional .. => true
  | assign _ _ l r _ | binary _ _ l r | index _ l r => hasConditional l || hasConditional r
  | call _ c args _ _ g v s _ =>
    hasConditional c || anyConditional args || hasConditional g || hasConditional v
      || hasConditional s
  | member _ e _ _ | conversion _ e _ | unary _ _ e => hasConditional e
  | tuple _ es => anyConditional es
  | _ => false

def anyConditional : List Expr -> Bool
  | [] => false
  | e :: es => hasConditional e || anyConditional es
end

mutual
def parts : Expr -> List Expr
  | omitted => []
  | e@(assign _ _ l r _) | e@(binary _ _ l r) | e@(index _ l r) => e :: (parts l ++ parts r)
  | e@(call _ c args _ _ g v s _) => e :: (parts c ++ partsList args ++ parts v ++ parts g ++ parts s)
  | e@(conditional _ c t f) => e :: (parts c ++ parts f ++ parts t)
  | e@(member _ x _ _) | e@(conversion _ x _) | e@(unary _ _ x) => e :: parts x
  | e@(tuple _ es) => e :: partsList es
  | e => [e]

def partsList : List Expr -> List Expr
  | [] => []
  | e :: es => parts e ++ partsList es
end

mutual
/-- What the parts of an expression tell of themselves. Call options are not searched. -/
def gather {α : Type} (own : Expr -> List α) : Expr -> List α
  | assign _ _ l r _ | binary _ _ l r | index _ l r => gather own l ++ gather own r
  | e@(call _ c args _ _ _ _ _ _) => gather own c ++ gatherAll own args ++ own e
  | conditional _ c t e => gather own c ++ gather own e ++ gather own t
  | member _ e _ _ | conversion _ e _ | unary _ _ e => gather own e
  | tuple _ es => gatherAll own es
  | e => own e

def gatherAll {α : Type} (own : Expr -> List α) : List Expr -> List α
  | [] => []
  | e :: es => gather own e ++ gatherAll own es
end

def targets (e : Expr) : List Target :=
  (e.gather fun
    | name _ t _ _ => [t]
    | _ => []).eraseDups

def calls : Expr -> List Expr :=
  gather fun
    | e@(call ..) => [e]
    | _ => []

def distinct (es : List Expr) : List Expr :=
  es.foldl (fun seen e => if seen.any (·.info.key == e.info.key) then seen else seen ++ [e]) []

/-! ## Conditional expressions as branches -/

mutual
def conditionals : Expr -> Nat
  | conditional _ c t e => conditionals c + conditionals t + conditionals e + 1
  | assign _ _ l r _ | binary _ _ l r | index _ l r => conditionals l + conditionals r
  | call _ c args _ _ g v s _ => conditionals c + conditionalsList args + conditionals g + conditionals v + conditionals s
  | member _ e _ _ | conversion _ e _ | unary _ _ e => conditionals e
  | tuple _ es => conditionalsList es
  | _ => 0

def conditionalsList : List Expr -> Nat
  | [] => 0
  | e :: es => conditionals e + conditionalsList es
end

/-- For a condition that holds and for one that fails. Of the conditions that were met, the last one decides. -/
structure Split (α : Type) where
  met : List Expr
  whenTrue : α
  whenFalse : α

namespace Split

variable {α β : Type}

def condition (s : Split α) : Option Expr := s.met.getLast?

def same (met : List Expr) (a : α) : Split α := ⟨met, a, a⟩

def map (f : α -> β) (s : Split α) : Split β := ⟨s.met, f s.whenTrue, f s.whenFalse⟩

/-- The second value was split after the first. -/
def app (f : Split (α -> β)) (s : Split α) : Split β := ⟨s.met, f.whenTrue s.whenTrue, f.whenFalse s.whenFalse⟩

def pick (s : Split α) (b : Bool) : α := if b then s.whenTrue else s.whenFalse

end Split

def isConditional : Expr -> Bool
  | conditional .. => true
  | tuple _ [conditional ..] => true
  | _ => false

mutual
/-- Conditionals that stand directly in a part are resolved; behind a condition that was met nothing is searched. -/
def splitPart (met : List Expr) : Expr -> Split Expr
  | conditional _ c t e => ⟨met ++ [c], t, e⟩
  | tuple _ [conditional _ c t e] => ⟨met ++ [c], t, e⟩
  | assign i op l r ty =>
    if !met.isEmpty then .same met (assign i op l r ty)
    else
      let a := splitPart [] l
      (a.map fun x y => assign i op x y ty).app (splitPart a.met r)
  | binary i op l r =>
    if !met.isEmpty then .same met (binary i op l r)
    else
      let a := splitPart [] l
      (a.map (binary i op)).app (splitPart a.met r)
  | index i l r =>
    if !met.isEmpty then .same met (index i l r)
    else
      let a := splitPart [] l
      (a.map (index i)).app (splitPart a.met r)
  | tuple i es => if !met.isEmpty then .same met (tuple i es) else (splitParts [] es).map (tuple i)
  | call i called args n ty g v s u =>
    if !met.isEmpty then .same met (call i called args n ty g v s u)
    else
      -- An option that is a conditional ends the search.
      let c := splitPart [] called
      let g' := splitPart c.met g
      let v' := if isConditional g then .same g'.met v else splitPart g'.met v
      let as := if isConditional g || isConditional v then .same v'.met args else splitParts v'.met args
      (((c.map fun c g v as => call i c as n ty g v s u).app g').app v').app as
  | conversion i e t => if !met.isEmpty then .same met (conversion i e t) else (splitPart [] e).map (conversion i · t)
  | unary i op e => if !met.isEmpty then .same met (unary i op e) else (splitPart [] e).map (unary i op)
  | member i e n t => if !met.isEmpty then .same met (member i e n t) else (splitPart [] e).map (member i · n t)
  | e => .same met e

def splitParts (met : List Expr) : List Expr -> Split (List Expr)
  | [] => .same met []
  | e :: es =>
    let a := splitPart met e
    (a.map .cons).app (splitParts a.met es)
end

def split : Expr -> Split Expr
  | conditional _ c t e => ⟨[c], t, e⟩
  | tuple i [conditional _ c t e] => ⟨[c], tuple i [t], tuple i [e]⟩
  | e => splitPart [] e

end Expr

end ContractAudit
