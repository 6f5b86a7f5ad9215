import ContractAudit.Number.Literal

/-! # Elementary types and constants -/

namespace ContractAudit

open Text Number

inductive Elementary where
  | address
  | bool
  | string
  | var
  | int (bits : Nat)
  | uint (bits : Nat)
  | bytes
  | bytesN (count : Nat)
  | fixed (shape : Option (Nat × Nat))
  | ufixed (shape : Option (Nat × Nat))
  deriving DecidableEq, Inhabited

namespace Elementary

variable (s : String)

def numeral? : Option Nat :=
  let cs := s.toList
  if cs.isEmpty || !cs.all Char.isDigit || (cs.head? == some '0' && 1 < cs.length) then none
  else some (cs.foldl (fun n c => n * 10 + (c.toNat - 48)) 0)

def width? : Option Nat := do
  let n <- numeral? s
  if 8 ≤ n && n ≤ 256 && n % 8 == 0 then some n else none

def shape? : Option (Nat × Nat) :=
  match splitOn s "x" with
  | [m, n] => do
    let m <- width? m
    let n <- numeral? n
    if n ≤ 80 then some (m, n) else none
  | _ => none

/-- `uint`, `int` and `byte` are short names. -/
def ofName? : Option Elementary :=
  if s == "address" then some address
  else if s == "bool" then some bool
  else if s == "string" then some string
  else if s == "var" then some var
  else if s == "int" then some (int 256)
  else if s == "uint" then some (uint 256)
  else if s == "byte" then some (bytesN 1)
  else if s == "bytes" then some bytes
  else if s == "fixed" then some (fixed none)
  else if s == "ufixed" then some (ufixed none)
  else match after? "uint" s with
    | some w => (width? w).map uint
    | none => match after? "int" s with
      | some w => (width? w).map int
      | none => match after? "bytes" s with
        | some w => (numeral? w).bind fun n => if 1 ≤ n && n ≤ 32 then some (bytesN n) else none
        | none => (after? "ufixed" s).elim ((after? "fixed" s).bind fun w =>
          (shape? w).map fun p => fixed (some p)) fun w => (shape? w).map fun p => ufixed (some p)

def ofName : Result Elementary := expect (ofName? s) .notElementary

def name : Elementary -> String
  | address => "address"
  | bool => "bool"
  | string => "string"
  | var => "var"
  | int b => s!"int{b}"
  | uint b => s!"uint{b}"
  | bytes => "bytes"
  | bytesN n => s!"bytes{n}"
  | fixed none => "fixed"
  | fixed (some (m, n)) => s!"fixed{m}x{n}"
  | ufixed none => "ufixed"
  | ufixed (some (m, n)) => s!"ufixed{m}x{n}"

def isDynamic : Elementary -> Bool
  | bytes | string => true
  | _ => false

def size? : Elementary -> Option Nat
  | uint b | int b => some b
  | bool => some 8
  | address => some 160
  | bytesN n => some (n * 8)
  | _ => none

def size (t : Elementary) : Result Nat := expect t.size? (.analysis s!"{t.name} does not have a size")

def storageSize (t : Elementary) : Result (Nat × Bool) :=
  if t.isDynamic then .ok (32, true) else return ((<- t.size) / 8, false)

def isInteger : Elementary -> Bool
  | int _ | uint _ => true
  | _ => false

def min? : Elementary -> Option Int
  | int b => some (-.pow 2 (b - 1))
  | uint _ | bytesN _ | bytes | string => some 0
  | _ => none

def max? : Elementary -> Option (Option Int)
  | int b => some (some (Int.pow 2 (b - 1) - 1))
  | uint b => some (some (Int.pow 2 b - 1))
  | bytesN n => some (some (Int.pow 2 (8 * n) - 1))
  | bytes | string => some none
  | _ => none

def min (t : Elementary) : Result Int := expect t.min? (.analysis s!"{t.name} does not have a min value")

def max (t : Elementary) : Result (Option Int) := expect t.max? (.analysis s!"{t.name} does not have a max value")

end Elementary

/-! ## Constants -/

inductive ConstantValue where
  | int (i : Int)
  | bool (b : Bool)
  | text (s : String)

def ConstantValue.render : ConstantValue -> String
  | int i => toString i
  | bool b => ofBool b
  | text s => s

def ConstantValue.same : ConstantValue -> ConstantValue -> Bool
  | int a, int b => a == b
  | bool a, bool b => a == b
  | text a, text b => a == b
  | int a, bool b | bool b, int a => a == (if b then 1 else 0)
  | _, _ => false

structure Constant where
  written : String
  unit : Option String
  type : Elementary
  value : ConstantValue

namespace Constant

/-- Integers and addresses are numbers; what is neither a number nor a truth value keeps its text. -/
def valueAt (type : Elementary) (s : String) : Result ConstantValue :=
  match type with
  | .int _ | .uint _ | .address => return .int (<- literalInt s)
  | .bool => return .bool (s == "true" || s == "True")
  | _ => return .text s

def isNumeral (s : String) : Bool := s != "" && s.toList.all isAnyDigit

/-- Without a type, digits are an unsigned integer and all else a text. -/
def ofLiteral (s : String) (type : Option Elementary) (unit : Option String) :
    Result Constant := do
  let unit := unit.filter (· != "")
  let v <- match unit with
    | some u => pure (toString (<- literalInUnit s u))
    | none => pure s
  match type with
  | some t => return ⟨s, unit, t, <- valueAt t v⟩
  | none =>
    if isNumeral v then return ⟨s, unit, .uint 256, .int (<- literalInt v)⟩
    return ⟨s, unit, .string, .text v⟩

def render (c : Constant) : String := c.value.render

end Constant

/-! ## Types

Declared types are given by the place of their declaration in the tables of a program.
-/

abbrev ContractId := Nat
abbrev FunctionId := Nat
abbrev VariableId := Nat
abbrev StructId := Nat
abbrev EnumId := Nat
abbrev EventId := Nat
abbrev ErrorId := Nat
abbrev AliasId := Nat
abbrev ImportId := Nat
abbrev ScopeId := Nat
abbrev UsingId := Nat
abbrev NodeId := Nat

inductive Target where
  | var (id : VariableId)
  | func (id : FunctionId)
  | contract (id : ContractId)
  | struct (id : StructId)
  | enum (id : EnumId)
  | event (id : EventId)
  | error (id : ErrorId)
  | valueType (id : AliasId)
  | imported (id : ImportId)
  | builtin (name : String)
  | member (name : String)
  | builtinFunction (name : String)
  | customRevert (error : ErrorId)
  | opcode (name : String)
  deriving DecidableEq, Inhabited

inductive LiteralValue where
  | text (s : String)
  | int (i : Int)
  | bool (b : Bool)
  | bytes (bs : List UInt8)
  deriving DecidableEq

structure ArrayLength where
  value : LiteralValue
  unit : Option String
  shown : String
  written : String
  reads : List Target

inductive Ty where
  | elementary (type : Elementary)
  | array (element : Ty) (length : Option ArrayLength)
  | mapping (key value : Ty)
  | function (params returns : List Ty) (paramIds returnIds : List VariableId)
  | contract (id : ContractId)
  | struct (id : StructId)
  | enum (id : EnumId)
  | valueType (id : AliasId)
  | information (subject : Ty)

namespace Ty

abbrev uint256 : Ty := .elementary (.uint 256)
abbrev address : Ty := .elementary .address
abbrev bool : Ty := .elementary .bool

def ofName (s : String) : Result Ty := return .elementary (<- Elementary.ofName s)

def isDeclared : Ty -> Bool
  | contract _ | struct _ | enum _ => true
  | _ => false

def isArray : Ty -> Bool
  | array _ _ => true
  | _ => false

def isMapping : Ty -> Bool
  | mapping _ _ => true
  | _ => false

end Ty

end ContractAudit
