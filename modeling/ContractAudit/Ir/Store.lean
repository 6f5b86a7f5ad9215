import ContractAudit.Ir.Op
import ContractAudit.Program.Builtin
import ContractAudit.Program.Signature

/-! # Intermediate values

The results of operations live in tables of the unit. While operations are made from an expression, calls are drafts.
-/

namespace ContractAudit.Ir

structure Reference where
  typing : ValueTyping := .unknown
  pointsTo : Option Value := none
  deriving Inhabited

structure Version where
  variable_ : VariableId
  index : Nat := 0
  standIn : Bool := false
  refersTo : List Value := []
  deriving Inhabited

structure Store where
  temporaries : Array ValueTyping := #[]
  references : Array Reference := #[]
  tuples : Array ValueTyping := #[]
  versions : Array Version := #[]
  versionParts : Array (Option Value) := #[]

namespace Store

def reference (s : Store) (i : Nat) : Reference := s.references.getD i default

def version (s : Store) (i : Nat) : Version := s.versions.getD i default

def pointsTo (s : Store) : Value -> Option Value
  | .reference i => (s.reference i).pointsTo
  | .versionReference i => s.versionParts.getD i none
  | _ => none

def originFrom (s : Store) : Nat -> Value -> Option Value
  | 0, v => some v
  | fuel + 1, v =>
    if v.isReference then (s.pointsTo v).bind fun w => s.originFrom fuel w
    else some v

def origin (s : Store) (v : Value) : Option Value := s.originFrom (s.references.size + 1) v

end Store

end Ir

namespace Program

open Ir

variable (p : Program) (s : Store) (v : VariableId)

def variableOf? : Value -> Option VariableId
  | .target (.var v) => some v
  | .version i => some (s.version i).variable_
  | _ => none

def isStateVariable : Bool := (p.var v).kind matches .state _

def isLocalVariable : Bool := (p.var v).kind matches .inFunction _ _

def isTopLevelVariable : Bool := (p.var v).kind matches .topLevel _

def canBeWritten (v : Value) : Bool :=
  (variableOf? s v).elim v.isIntermediate fun x => p.isStateVariable x || p.isLocalVariable x

def canBeRead (v : Value) : Bool :=
  (variableOf? s v).elim (v.isTemporary || v.isReference || v.isConstant || v.isBuiltin) fun x =>
    p.isStateVariable x || p.isLocalVariable x || p.isTopLevelVariable x

def resultTyping (f : FunctionId) : ValueTyping :=
  match (p.function f).returns with
  | [] => .unknown
  | vs => .several (vs.map fun v => .type (p.var v).type)

def typeKindName : Ty -> String
  | .elementary _ => "ElementaryType"
  | .array _ _ => "ArrayType"
  | .mapping _ _ => "MappingType"
  | .function .. => "FunctionType"
  | .contract _ | .struct _ | .enum _ => "UserDefinedType"
  | .valueType v => if (p.valueType v).owner.isTopLevel then "TypeAliasTopLevel" else "TypeAliasContract"
  | .information _ => "TypeInformation"

def targetKindName : Target -> String
  | .var v => match (p.var v).kind with
    | .state _ => "StateVariable"
    | .inFunction _ none => "LocalVariable"
    | .inFunction _ (some _) => "LocalVariableInitFromTuple"
    | .topLevel _ => "TopLevelVariable"
    | .structMember _ => "StructureVariable"
    | .eventParameter => "EventVariable"
    | .functionTypeParameter => "FunctionTypeVariable"
  | .func f => match (p.function f).place with
    | .inContract _ _ => if (p.function f).isModifier then "Modifier" else "FunctionContract"
    | .topLevel _ => "FunctionTopLevel"
  | .contract _ => "Contract"
  | .struct s => if (p.struct s).owner.isTopLevel then "StructureTopLevel" else "StructureContract"
  | .enum e => if (p.enum e).owner.isTopLevel then "EnumTopLevel" else "EnumContract"
  | .event e => if (p.event e).owner.isTopLevel then "EventTopLevel" else "EventContract"
  | .error e => if (p.error e).owner.isTopLevel then "CustomErrorTopLevel" else "CustomErrorContract"
  | .valueType v => p.typeKindName (.valueType v)
  | .imported _ => "SolidityImportPlaceHolder"
  | .builtin _ => "SolidityVariable"
  | .member _ => "SolidityVariableComposed"
  | .builtinFunction _ => "SolidityFunction"
  | .customRevert _ => "SolidityCustomRevert"
  | .opcode _ => "YulBuiltin"

def valueKindName : Value -> String
  | .target t => p.targetKindName t
  | .constant _ => "Constant"
  | .temporary _ => "TemporaryVariable"
  | .reference _ => "ReferenceVariable"
  | .tuple _ => "TupleVariable"
  | .version _ => "LocalIRVariable"
  | .versionReference _ => "ReferenceVariableSSA"
  | .type t => p.typeKindName t
  | .file _ => "Import"
  | .list _ => "list"
  | .absent => "NoneType"

def lacks (v : Value) (property : String) : Fault := .lacks (p.valueKindName v) property

def builtinType (types : Table String String) (name : String) : Result ValueTyping :=
  match types.find? name with
  | some t => return .one (<- Ty.ofName t)
  | none => throw (.missing name)

def typing : Value -> Result ValueTyping
  | .target (.var v) => return .ofOption (p.var v).type
  | .target (.func f) => return p.resultTyping f
  | .target (.builtin n) => builtinType Builtin.vars n
  | .target (.member n) => builtinType Builtin.members n
  | .target (.imported _) => return .one (.elementary .string)
  | .target (.valueType v) => return .one (.elementary (p.valueType v).underlying)
  | .constant c => return .one (.elementary c.type)
  | .temporary i => return s.temporaries.getD i .unknown
  | .reference i | .versionReference i => return (s.reference i).typing
  | .tuple i => return s.tuples.getD i .unknown
  | .version i => return .ofOption (p.var (s.version i).variable_).type
  | .type (.array t _) => return .one t
  | v => throw (p.lacks v "type")

def versionName (v : Version) : String := (if v.standIn then "STORAGE_" else "") ++ (p.var v.variable_).name

def isStorageVersion (v : Version) : Bool := p.isLocalVariable v.variable_ && !v.standIn && p.isStorageLocal v.variable_

def valueName : Value -> Result String
  | .target (.error e) => return (p.error e).name
  | .target (.valueType v) => return (p.valueType v).name
  | .target t => return p.targetText t
  | .constant c => return c.render
  | .temporary i => return s!"TMP_{i}"
  | .reference i | .versionReference i => return s!"REF_{i}"
  | .tuple i => return s!"TUPLE_{i}"
  | .version i => return p.versionName (s.version i)
  | .type (.elementary t) => return t.name
  | v => throw (p.lacks v "name")

mutual
def valueText (p : Program) (s : Store) : Value -> String
  | .target t => p.targetText t
  | .constant c => c.render
  | .temporary i => s!"TMP_{i}"
  | .reference i | .versionReference i => s!"REF_{i}"
  | .tuple i => s!"TUPLE_{i}"
  | .version i => p.versionName (s.version i) ++ s!"_{(s.version i).index}"
  | .type t => p.typeText t
  | .file i => (p.import_ i).filename
  | .list items => Text.bracketed (p.valueTexts s items)
  | .absent => "None"

def valueTexts (p : Program) (s : Store) : List Value -> List String
  | [] => []
  | v :: vs => p.valueText s v :: p.valueTexts s vs
end

end Program

open Ir

/-! ## Operations in words -/

/-- The names are put in some order. -/
def Program.referredText (p : Program) (s : Store) (arrange : List String -> List String) (x : Version) : String :=
  if p.isStorageVersion x then
    " (-> " ++ Text.quotedList (arrange (x.refersTo.map fun w => ((p.valueName s w).toOption).getD "")) ++ ")"
  else ""

structure OpStyle where
  program : Program
  store : Store
  name : Value -> String
  checked : Bool := false

namespace OpStyle

variable (o : OpStyle) (v : Value) (p : Program) (s : Store) (vs : List Value)

def plain (checked : Bool) : OpStyle := { program := p, store := s, name := p.valueText s, checked }

def numbered (checked : Bool) : OpStyle :=
  { program := p, store := s, checked := checked
    name := fun
      | .version i => p.valueText s (.version i) ++ p.referredText s id (s.version i)
      | v => p.valueText s v }

def itemText : TypeItem -> String
  | .type t => o.program.typeText? t
  | .value v => o.name v

def typingText : ValueTyping -> String
  | .unknown => "None"
  | .one t => o.program.typeText t
  | .several ts => ",".intercalate (ts.map o.itemText)
  | .function f => o.program.functionName f

def typeOf : String :=
  match o.program.typing o.store v with
  | .ok t => o.typingText t
  | .error _ => "None"

def typed : String := o.name v ++ "(" ++ o.typeOf v ++ ")"

def names : String := ",".intercalate (vs.map o.name)

def quotedNames : String := Text.quotedList (vs.map o.name)

def option (label : String) : Option Value -> String
  | some v => label ++ ":" ++ o.name v
  | none => ""

def result : Option Value -> String
  | some v => o.typed v ++ " = "
  | none => ""

def originText : String := (o.store.origin v).elim "None" o.name

mutual
def element (o : OpStyle) : Value -> String
  | .list items => Text.quotedList (o.elements items)
  | v => o.typed v

def elements (o : OpStyle) : List Value -> List String
  | [] => []
  | v :: vs => o.element v :: o.elements vs
end

def operator (op : BinaryOp) : String := (if o.checked && op.mayOverflow then "(c)" else "") ++ op.sign

def calleeName (name : Constant) : Option Target -> String
  | some (.func f) => o.program.functionCanonicalName f
  | _ => name.render

def callText (c : Call) : String :=
  let value := o.option "value" c.value
  let gas := o.option "gas" c.gas
  match c.kind with
  | .highLevel d n _ =>
    s!"{o.result c.result}HIGH_LEVEL_CALL, dest:{o.typed d}, function:{n.render}, arguments:{o.quotedNames c.arguments} {value} {gas}"
  | .library d n f =>
    s!"{o.result c.result}LIBRARY_CALL, dest:{o.name d}, function:{o.calleeName n f}, arguments:{o.quotedNames c.arguments} {gas}"
  | .internal f _ _ =>
    let (kind, callee) := f.elim ("INTERNAL_CALL", "None") fun f =>
      (if (o.program.function f).isModifier then "MODIFIER_CALL" else "INTERNAL_CALL", o.program.functionCanonicalName f)
    s!"{o.result c.result}{kind}, {callee}({o.names c.arguments})"
  | .dynamic f _ =>
    let name := match f with
      | .version i => (o.program.var (o.store.version i).variable_).name
      | v => o.name v
    s!"{o.result c.result}INTERNAL_DYNAMIC_CALL {name}({o.names c.arguments}) {value} {gas}"
  | .lowLevel d n =>
    let result := c.result.elim "None" o.typed
    s!"{result} = LOW_LEVEL_CALL, dest:{o.name d}, function:{n.render}, arguments:{o.quotedNames c.arguments} {value} {gas}"
  | .builtin f =>
    let decodes := if let .builtinFunction n := f then n == "abi.decode()" else false
    let arguments := match decodes, c.arguments with
      | true, [a, .list ts] => o.name a ++ "(" ++ o.names ts ++ ")"
      | _, arguments => o.names arguments
    s!"{o.result c.result}SOLIDITY_CALL {o.program.targetText f}({arguments})"
  | .event n => s!"Emit {n}({o.names c.arguments})"
  | .newArray t => s!"{resultText o c} = new {o.program.typeText t}({o.names c.arguments})"
  | .newContract t =>
    let options := (if c.value.isSome then value ++ " " else "") ++ (if c.salt.isSome then o.option "salt" c.salt ++ " " else "")
    s!"{resultTyped o c} = new {o.program.typeText t}({o.names c.arguments}) {options}"
  | .newElementary t => s!"{resultName o c} = new {t.name}({o.names c.arguments})"
  | .newStruct s => s!"{resultTyped o c} = new {(o.program.struct s).name}({o.names c.arguments})"
  | .send d v => s!"{resultName o c} = SEND dest:{o.name d} value:{o.name v}"
  | .transfer d v => s!"Transfer dest:{o.name d} value:{o.name v}"
where
  resultTyped (o : OpStyle) (c : Call) : String := (c.result.map o.typed).getD "None"
  resultText (o : OpStyle) (c : Call) : String := resultTyped o c ++ " "
  resultName (o : OpStyle) (c : Call) : String := (c.result.map o.name).getD "None"

def text : Op -> String
  | .assign l r =>
    if l.isReference then s!"{o.typed l} (->{o.originText l}) := {o.typed r}"
    else s!"{o.typed l} := {o.typed r}"
  | .binary l op a b =>
    if l.isReference then s!"{o.name l}(-> {o.originText l}) = {o.name a} {o.operator op} {o.name b}"
    else s!"{o.typed l} = {o.name a} {o.operator op} {o.name b}"
  | .unary l op v =>
    let sign := if let .bang := op then "UnaryType.BANG" else "UnaryType.TILD"
    s!"{o.name l} = {sign} {o.name v} "
  | .conversion l v t => s!"{o.name l} = CONVERT {o.name v} to {o.program.typeText t}"
  | .index l a b => s!"{o.typed l} -> {o.name a}[{o.name b}]"
  | .member l a n => s!"{o.typed l} -> {o.name a}.{n.render}"
  | .length l v => s!"{o.name l} -> LENGTH {o.name v}"
  | .codeSize l v => s!"{o.name l} -> CODESIZE {o.name v}"
  | .delete l v => s!"{o.name l} = delete {o.name v} "
  | .initArray l vs => s!"{o.typed l} = {Text.quotedList (o.elements vs)}"
  | .unpack l t i => s!"{o.typed l}= UNPACK {o.name t} index: {i} "
  | .condition v => s!"CONDITION {o.name v}"
  | .returns vs => s!"RETURN {o.names vs}"
  | .call c => o.callText c
  | .phi l vs _ | .phiCallback l vs _ _ => s!"{o.typed l} := ϕ({o.quotedNames vs})"
  | .nop => "NOP"

end OpStyle

end ContractAudit

/-! ## Drafts of operations -/

namespace ContractAudit.Ir

inductive ArgumentRole where
  | argument | value | gas

structure PendingCall where
  called : Value
  count : Nat
  result : Value
  type : String
  names : Option (List String) := none
  gas : Option Value := none
  value : Option Value := none
  salt : Option Value := none
  key : Option String := none
  origin : Option Nat := none

inductive DraftKind where
  | done (op : Op)
  | argument (value : Value) (role : ArgumentRole) (key : Option String)
  | pending (call : PendingCall)
  | newArray (type : Ty) (result : Value)
  | newContract (type : Ty) (result : Value)
  | newElementary (type : Elementary) (result : Value)

structure Draft where
  key : Nat
  kind : DraftKind
  expr : Option Expr

def Draft.lvalue? (d : Draft) : Option Value :=
  match d.kind with
  | .done op => op.lvalue?
  | .argument .. => none
  | .pending c => some c.result
  | .newArray _ r | .newContract _ r | .newElementary _ r => some r

structure State where
  program : Program
  store : Store := {}
  drafts : Array Draft := #[]

end Ir

open Ir

abbrev Lower := EStateM Fault Ir.State

namespace Lower

variable (v : Value) (s : String) (t : ValueTyping)

def program : Lower Program := return (<- get).program

def store : Lower Store := return (<- get).store

def require (b : Bool) : Lower Unit := if b then pure () else throw (.broken "")

def need {α : Type} (x : Option α) (f : Fault) : Lower α := expect x f

def modifyStore (f : Store -> Store) : Lower Unit := modify fun s => { s with store := f s.store }

def newTemporary : Lower Value :=
  modifyGet fun s => (.temporary s.store.temporaries.size,
    { s with store := { s.store with temporaries := s.store.temporaries.push .unknown } })

def newReference : Lower Value :=
  modifyGet fun s => (.reference s.store.references.size,
    { s with store := { s.store with references := s.store.references.push {} } })

def newTuple : Lower Value :=
  modifyGet fun s => (.tuple s.store.tuples.size,
    { s with store := { s.store with tuples := s.store.tuples.push .unknown } })

def typing : Lower ValueTyping := do
  let s <- get
  ofExcept (s.program.typing s.store v)

def nameOf : Lower String := do
  let s <- get
  ofExcept (s.program.valueName s.store v)

def lacks {α : Type} (v : Value) (property : String) : Lower α := do throw ((<- program).lacks v property)

/-- Only a part of a variable can be a function. -/
def setTyping : Lower Unit := do
  if let .function _ := t then require v.isReference
  match v with
  | .temporary i => modifyStore fun s => { s with temporaries := s.temporaries.setIfInBounds i t }
  | .reference i => modifyStore fun s => { s with references := s.references.modify i fun r => { r with typing := t } }
  | .tuple i => modifyStore fun s => { s with tuples := s.tuples.setIfInBounds i t }
  | .target (.var x) =>
    match t with
    | .one t => modify fun s => { s with program := s.program.modifyVariable x fun y => { y with type := some t } }
    | .unknown => modify fun s => { s with program := s.program.modifyVariable x fun y => { y with type := none } }
    | _ => pure ()
  | _ => pure ()

def setType (t : Ty) : Lower Unit := setTyping v (.one t)

def canBeWritten : Lower Bool := do
  let s <- get
  return s.program.canBeWritten s.store v

def canBeRead : Lower Bool := do
  let s <- get
  return s.program.canBeRead s.store v

def setPart (r v : Value) : Lower Unit := do
  let p <- program
  let topLevel := match v with
    | .target (.var x) => p.isTopLevelVariable x
    | .target (.enum _) => true
    | _ => false
  require ((<- canBeWritten v) || v.isBuiltin || v.isContract || topLevel)
  match r with
  | .reference i => modifyStore fun s =>
    { s with references := s.references.modify i fun x => { x with pointsTo := some v } }
  | _ => pure ()

def push (kind : DraftKind) (e : Option Expr) : Lower Unit :=
  modify fun s => { s with drafts := s.drafts.push { key := s.drafts.size, kind, expr := e } }

def emit (op : Op) (e : Option Expr) : Lower Unit := push (.done op) e

/-! ## Operations with their conditions -/

def assignment (l r : Value) : Lower Op := do
  require (<- canBeWritten l)
  require ((<- canBeRead r) || r.isFunction || r.isTuple)
  return .assign l r

/-- The result takes the type of the left operand, or is a truth value. -/
def binary (l a b : Value) (op : BinaryOp) : Lower Op := do
  require ((<- canBeRead a) || a.isFunction)
  require ((<- canBeRead b) || b.isFunction)
  require (<- canBeWritten l)
  if op.isTruth then setType l .bool else setTyping l (<- typing a)
  return .binary l op a b

def conversion (l v : Value) (t : Ty) : Lower Op := do
  require ((<- canBeRead v) || v.isContract)
  require (<- canBeWritten l)
  match t with
  | .elementary _ | .valueType _ | .contract _ | .struct _ | .enum _ | .array _ _ => return .conversion l v t
  | _ => throw (.broken "")

def index (l a b : Value) : Lower Op := do
  let p <- program
  let topLevel := match a with
    | .target (.var x) => p.isTopLevelVariable x
    | .target (.member n) => n == "msg.data"
    | _ => false
  require ((<- canBeWritten a) || topLevel)
  require (<- canBeRead b)
  return .index l a b

def member (l a : Value) (name : String) : Lower Op := do
  let special := match a with
    | .target (.contract _) | .target (.enum _) | .target (.func _) | .target (.event _) | .target (.error _)
    | .target (.imported _) | .type (.elementary _) => true
    | _ => false
  require ((<- canBeRead a) || special)
  return .member l a (<- ofExcept (Constant.ofLiteral name none none))

def length (l v : Value) : Lower Op := do
  require (<- canBeRead v)
  require (<- canBeWritten l)
  setType l .uint256
  return .length l v

def codeSize (l v : Value) : Lower Op := do
  require (<- canBeRead v)
  require (<- canBeWritten l)
  setType l .uint256
  return .codeSize l v

def initArray (l : Value) (vs : List Value) : Lower Op := do
  require (vs.all fun v => !(v matches .absent | .list []))
  return .initArray l vs

def unpack (l t : Value) (i : Nat) : Lower Op := do
  require (<- canBeWritten l)
  require t.isTuple
  return .unpack l t i

def canBeReturned : Value -> Lower Bool
  | .list items => items.attach.allM fun ⟨v, _⟩ => canBeReturned v
  | v => return (<- canBeRead v) || v.isTuple || v.isFunction

def returns : Lower Op := do
  match v with
  | .absent => return .returns []
  | .list items =>
    let items := items.filter (!·.isAbsent)
    require (<- canBeReturned (.list items))
    return .returns (Value.flatAll items)
  | v =>
    require (<- canBeReturned v)
    return .returns [v]

def constantAt : Lower Value := do
  if t.isUnknown then return .constant (<- ofExcept (Constant.ofLiteral s none none))
  if let .one (.elementary t) := t then return .constant (<- ofExcept (Constant.ofLiteral s (some t) none))
    else throw (.broken "")

def textConstant : Lower Value := constantAt s .unknown

end Lower

end ContractAudit
