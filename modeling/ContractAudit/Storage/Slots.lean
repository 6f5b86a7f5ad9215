import ContractAudit.Analysis.Summary
import ContractAudit.Report.TextTable
import ContractAudit.Storage.Value

/-! # Slots of variables

An element of an array or of a mapping lies at a place that is computed from the slot of the variable and from its key.
-/

namespace ContractAudit

open Text Number Table

namespace Storage

open Ir

variable (s : Survey) (a : Analysis) (p : Program) (c : ContractId) (v : VariableId) (k : ConstantSlot) (t : Elementary) (sel : Selection)

structure Slot where
  name : String
  type : String
  slot : Nat
  size : Nat
  offset : Nat

inductive SlotTree where
  | leaf (slot : Slot) (parts : List (String × SlotTree))
  | group (parts : List (String × SlotTree))

inductive Key where
  | number (i : Int)
  | text (s : String)
  | flag (b : Bool)

namespace Key

def isGiven : Key -> Bool
  | number i => i != 0
  | text s => s != ""
  | flag b => b

def toInt : Key -> Result Int
  | number i => .ok i
  | text s => decimal s
  | flag b => .ok b.toInt

def render : Key -> String
  | number i => toString i
  | text s => s
  | flag b => ofBool b

def toRaw : Key -> Raw
  | number i => .json (.int i)
  | text s => .json (.str s)
  | flag b => .json (.bool b)

end Key

structure Selection where
  key : Option Key := none
  deepKey : Option Key := none
  member : Option String := none

structure Found where
  type : String
  slot : Int
  size : Nat
  offset : Nat

def wordBytes (n : Int) : Result (List UInt8) :=
  if n < 0 then .error (.overflow "can't convert negative int to unsigned")
  else if Int.pow 2 256 ≤ n then .error (.overflow "int too big to convert")
  else .ok ((List.range 32).map fun k => UInt8.ofNat (n.toNat / Nat.pow 256 (31 - k) % 256))

def hashOf (bs : List UInt8) : Nat := Hash.bytesToNat (Hash.keccak256 ⟨bs.toArray⟩)

variable (contracts : List ContractId) (maxDepth : Nat) (e : Expr) (length : Option ArrayLength) (slot : Int)

def hashOfSlot : Result Nat := do return hashOf (<- wordBytes slot)

structure MemberWalk where
  slot : Int
  offset : Nat := 0
  size : Option Nat := none

/-- Only members of elementary types count, and a full slot is left. A member that is not there lies behind the last. -/
def memberFrom (name : String) (w : MemberWalk) : List VariableId -> Result Found
  | [] =>
    match w.size with
    | some size => .ok ⟨"", w.slot, size, w.offset⟩
    | none => .error (.unbound "size")
  | v :: rest =>
    match (p.var v).type with
    | some (.elementary t) => do
      let size <- t.size
      let w := if 256 ≤ w.offset then { w with slot := w.slot + 1, offset := 0 } else w
      if name == (p.var v).name then return ⟨t.name, w.slot, size, w.offset⟩
      memberFrom name { w with offset := w.offset + size, size := some size } rest
    | _ => memberFrom name w rest

def memberSlot (s : StructId) (slot : Int) (name : String) : Result Found :=
  memberFrom p name { slot := slot } (p.structMembers s)

def writtenLength (l : ArrayLength) : Result Int := decimal l.written

def firstElement : Result Int :=
  length.elim ((hashOfSlot slot).map .ofNat) fun _ => .ok slot

/-- Rows of fixed length lie one after the other, unless their number is fixed too. -/
def rowSlot (length inner : Option ArrayLength) (slot key : Int) : Result Int := do
  let first <- firstElement length slot
  match length, inner with
  | none, some l => return first + key * (<- writtenLength l)
  | _, _ => return first + key

def Selection.deep? : Option Key := sel.deepKey.filter (·.isGiven)

def Selection.member? : Option String := sel.member.filter (· != "")

def elementSlot (element : Ty) (length : Option ArrayLength) (slot : Int) (key : Key) (sel : Selection) :
    Result Found := do
  match element with
  | .array (.elementary t) inner =>
    let size <- t.size
    let row <- rowSlot length inner slot (<- key.toInt)
    match sel.deep? with
    | some deep =>
      let first <- firstElement inner row
      return ⟨t.name, first + .fdiv (<- deep.toInt) (256 / size : Nat), size, 0⟩
    | none => return ⟨t.name, row, size, 0⟩
  | .struct s =>
    let at_ := (<- firstElement length slot) + (<- key.toInt)
    match sel.member? with
    | some name => memberSlot p s at_ name
    | none => return ⟨(p.struct s).name, at_, 256, 0⟩
  | .elementary t => return ⟨t.name, (<- firstElement length slot) + (<- key.toInt), <- t.size, 0⟩
  | .array _ _ | .contract _ | .enum _ | .mapping _ _ | .function .. | .valueType _ | .information _ => throw (.broken "")

def keyedSlot (word : List UInt8) (slot : Int) : Result Nat := do return hashOf (word ++ (<- wordBytes slot))

def integerWord (i : Int) : Result (List UInt8) := do
  let (low, high, coder) := match t with
    | .uint b => ((0 : Int), Int.pow 2 b - 1, "UnsignedIntegerEncoder")
    | .int b => (-Int.pow 2 (b - 1), Int.pow 2 (b - 1) - 1, "SignedIntegerEncoder")
    | _ => (0, 0, "")
  if i < low || high < i then
    let bits := (t.size?).getD 256
    throw (.badValue (s!"Value `{i}` of type <class 'int'> cannot be encoded by {coder}: " ++
      s!"Cannot be encoded in {bits} bits. Must be bounded between [{low}, {high}]."))
  wordBytes (if i < 0 then i + Int.pow 2 256 else i)

/-- Texts and bytes cannot be given. -/
def keyWord (key : Key) : Result (List UInt8) := do
  let name := t.name
  if contains name "int" then integerWord t (<- key.toInt)
  else if contains name "bool" then wordBytes (if (<- number key.toRaw) != 0 then 1 else 0)
  else match key with
    | .text s =>
      if contains name "address" then wordBytes (<- hexadecimal (<- checksumAddress (.json (.str s))))
      else throw (.badType "")
    | _ => throw (.badType "")

def bitsOf (t : Ty) : Result Nat := do return (<- p.extent t).size * 8

def valueSlot (keyType valueType : Ty) (slot : Int) (key : Key) (sel : Selection) : Result Found := do
  let .elementary keyWords := keyType | throw (.broken "")
  let at_ <- keyedSlot (<- keyWord keyWords key) slot
  let member (s : StructId) (at_ : Nat) : Result Found := sel.member?.elim (.error (.broken "")) (memberSlot p s at_)
  match valueType with
  | .struct s => member s at_
  | .mapping (.elementary innerKey) inner =>
    let some deep := sel.deep? | throw (.broken "")
    let at_ <- keyedSlot (<- keyWord innerKey deep) at_
    match inner with
    | .struct s => member s at_
    | .elementary t => return ⟨t.name, at_, <- bitsOf p inner, 0⟩
    | .contract c => return ⟨(p.contract c).name, at_, <- bitsOf p inner, 0⟩
    | .enum e => return ⟨(p.enum e).name, at_, <- bitsOf p inner, 0⟩
    | _ => throw (.broken "")
  | .mapping _ _ => throw (.broken "")
  | .elementary t => return ⟨t.name, at_, <- bitsOf p valueType, 0⟩
  | _ => throw (.unhandled s!"{p.typeText (.mapping keyType valueType)} => {p.typeText valueType} not implemented")

def variablePlace : Result (Nat × Nat × Nat) := do
  let e <- a.program.variableExtent v
  let at_ <- a.program.positionIn a.layouts c v
  return (at_.slot, e.size * 8, at_.offset * 8)

/-- A contract from which others inherit has no slots of its own. -/
def slotOf? : Result (Option Slot) := do
  let p := a.program
  let x := p.var v
  match variablePlace a c v with
  | .error (.missingKey _) => return none
  | .error f => throw f
  | .ok (slot, size, offset) =>
    let found (name : String) (r : Result Found) : Result (Option Slot) := do
      let r <- r
      let _ <- wordBytes r.slot
      return some ⟨name, r.type, r.slot.toNat, r.size, r.offset⟩
    let plain : Result (Option Slot) := .ok (some ⟨x.name, p.typeText? x.type, slot, size, offset⟩)
    match x.type, sel.key, sel.member with
    | some (.array element length), some key, _ =>
      found s!"{x.name}[{key.render}]" (elementSlot p element length slot key sel)
    | some (.struct s), _, some name => found s!"{x.name}.{name}" (memberSlot p s slot name)
    | some (.contract _), _, some _ | some (.enum _), _, some _ => throw (.broken "")
    | some (.mapping keyType valueType), some key, _ =>
      if key.isGiven then found x.name (valueSlot p keyType valueType slot key sel) else plain
    | _, _, _ => plain

/-- The trees that are found, under their names. -/
def collect {α : Type} (xs : List α) (find : α -> Result (Option (String × SlotTree))) : Result (Table String SlotTree) :=
  xs.foldlM (fun parts x => do return (<- find x).elim parts fun (name, t) => parts.insert name t) []

def memberSlots (s : StructId) (key : Option Key) : Result (Table String SlotTree) :=
  collect (a.program.structMembers s) fun m => do
    let name := (a.program.var m).name
    return (<- slotOf? a c v { key, member := some name }).map fun slot => (name, .leaf slot [])

/-- The length of an array without a fixed one is not known. -/
def indices : Result (List Nat) := do
  let some l := length | return []
  return .range (min (<- writtenLength l).toNat maxDepth)

def elementSlots (c : ContractId) (v : VariableId) (element : Ty)
    (length : Option ArrayLength) : Result (Table String SlotTree) := do
  collect (<- indices maxDepth length) fun i => do
    match element with
    | .struct s => return some (toString i, .group (<- memberSlots a c v s (some (.number i))))
    | _ =>
      let key := some (.text (toString i))
      let some slot <- slotOf? a c v { key } | return none
      let inner <- match element with
        | .array _ inner => collect (<- indices maxDepth inner) fun j => do
            return (<- slotOf? a c v { key, deepKey := some (.text (toString j)) }).map fun slot => (toString j, .leaf slot [])
        | _ => pure []
      return some (toString i, .leaf slot inner)

def treeOf? (c : ContractId) (v : VariableId) : Result (Option SlotTree) := do
  let some slot <- slotOf? a c v {} | return none
  match (a.program.var v).type with
  | some (.struct s) => return some (.leaf slot (<- memberSlots a c v s none))
  | some (.array element length) => return some (.leaf slot (<- elementSlots a maxDepth c v element length))
  | _ => return some (.leaf slot [])

/-! ## Slots that constants name -/

structure ConstantSlot where
  name : String
  expr : Expr
  contract : ContractId
  declaration : Option VariableId := none

def isFoldable : Expr -> Bool
  | .binary .. | .unary .. | .name .. | .tuple .. | .conversion .. | .call .. => true
  | _ => false

def slotNumber : Folded -> Result Int
  | .int i => .ok i
  | .bool b => .ok b.toInt
  | .bytes bs => .ok (Hash.bytesToNat bs)
  | .text s => if startsWith s "0x" then hexadecimal s else number (.json (.str s))
  | v => .error (.badType (s!"int() argument must be a string, a bytes-like object or a real number, " ++
      s!"not '{v.kindName}'"))

def foldedWord? : Result (Option Folded) :=
  if !isFoldable e then .ok none
  else match p.fold "bytes32" e with
    | .ok v => .ok (some v)
    | .error (.notConstant _) => .ok none
    | .error f => .error f

def constantSlot? : Result (Option Int) := do
  match e with
  | .literal _ v _ _ => return some (<- slotNumber (.ofLiteral v))
  | e => (<- foldedWord? p e).mapM slotNumber

def namedSlotType? (constant : String) (text : String) : Option (String × Nat) :=
  let calls (name : String) : Bool := contains text (name ++ "(" ++ constant ++ ")")
  if calls "getAddressSlot" then some ("address", 160)
  else if calls "getBooleanSlot" then some ("bool", 1)
  else if calls "getBytes32Slot" then some ("bytes32", 256)
  else if calls "getUint256Slot" then some ("uint256", 256)
  else none

def variableSlotType (t : Target) : Result (String × Nat) :=
  match t with
  | .var v =>
    match (p.var v).type with
    | some (.elementary t) => do return (t.name, (<- t.storageSize).1 * 8)
    | some (.valueType u) => do return ((p.valueType u).name, (<- (p.valueType u).underlying.storageSize).1 * 8)
    | some _ => .error (.lacks "UserDefinedType" "name")
    | none => .error (.lacks "NoneType" "name")
  | _ => .error (.lacks "Function" "type")

def initialText (t : Target) : Result String :=
  match t with
  | .var v => .ok (p.exprText? (p.var v).expr)
  | _ => .error (.lacks "Function" "expression")

def nodeSlotType? (isFallback : Bool) (n : Node) : Result (Option (String × Nat)) := do
  match namedSlotType? k.name (p.nodeExprText n) with
  | some t => return some t
  | none =>
    let constant := p.exprText k.expr
    match n.expr with
    | some (.assign _ _ (.name _ target _ _) (.call _ called args _ _ _ _ _ _) _) =>
      if !contains (p.exprText called) "sload" then return none
      let some arg := args.head? | throw .outOfRange
      if p.exprText arg != constant then return none
      if isFallback then return some ("address", 160)
      return some (<- variableSlotType p target)
    | some (.call _ called args _ _ _ _ _ _) =>
      if !contains (p.exprText called) "sstore" then return none
      match args with
      | .name _ slot _ _ :: .name _ value _ _ :: _ =>
        if (<- initialText p slot) != constant then return none
        return some (<- variableSlotType p value)
      | .name .. :: [] | [] => throw .outOfRange
      | _ => return none
    | _ => return none

/-- A result that fits into a slot, or what a node of the function or of one that it calls tells. -/
def functionSlotType? (f : FunctionId) : Result (Option (String × Nat)) := do
  let p := a.program
  let results <- (p.function f).returns.mapM fun v => do
    let t <- expect (p.var v).type (.lacks "NoneType" "storage_size")
    return (p.typeText t, (<- p.extent t).size)
  match results.find? fun r => r.2 ≤ 32 with
  | some (t, size) => return some (t, size * 8)
  | none =>
    let nodes := (a.withCallees f).flatMap fun g => (a.nodeIds g).map fun n => (a.flow g).node n
    nodes.foldlM (fun found n => found.elim (nodeSlotType? p k ((p.function f).kind == .fallback) n) fun t =>
      return some t) none

def slotFunctions (k : ConstantSlot) : List FunctionId :=
  let p := a.program
  let constant := p.exprText k.expr
  let reads (f : FunctionId) : Bool := k.declaration.any fun v => (a.variablesRead f).any (·.same (.var v))
  let holds (f : FunctionId) : Bool := (p.function f).vars.values.any fun v => p.exprText? (p.var v).expr == constant
  contracts.flatMap (fun c => (p.functionsOf c).filter fun f => reads f || holds f) ++
    (p.functionsOf k.contract).filter p.isFallback

def slotType? (k : ConstantSlot) : Result (Option (String × Nat)) :=
  (slotFunctions a contracts k).foldlM (fun found f => found.elim (functionSlotType? a k f) fun t => return some t) none

def assemblySlot? (code : String) : Option Expr :=
  ((splitOn code "\n").findSome? fun line =>
    match splitOn line "sload(" with
    | _ :: rest :: _ =>
      let arg := (splitOn rest ")").headD ""
      if startsWith arg "0x" then some arg else none
    | _ => none).map fun arg => .literal {} (.text arg) (.elementary (.bytesN 32)) none

def callArgument : Nat -> Expr -> Expr
  | 0, e => e
  | fuel + 1, .call _ called (arg :: _) _ _ _ _ _ _ =>
    if contains (p.exprText called) "sload" then arg else callArgument fuel arg
  | _, e => e

def operandCall : Nat -> Expr -> Expr
  | 0, e => e
  | fuel + 1, .binary _ _ l r =>
    let isNext : Expr -> Bool := fun
      | .call .. | .binary .. => true
      | _ => false
    operandCall fuel (if isNext l then l else if isNext r then r else l)
  | _, e => e

def exprDepth : Nat := 1000

/-- `taken` are the slots of variables. -/
def expressionSlot? (taken : Result (List Nat)) (e : Expr) : Result (Option Expr) := do
  let e := match e with
    | .assign _ _ _ r _ => r
    | e => e
  let e := callArgument p exprDepth (operandCall exprDepth e)
  let word : Ty := .elementary (.bytesN 32)
  let value <- match e with
    | .literal _ v (.elementary t) _ => if t == .bytesN 32 || t == .uint 256 then pure (some (.ofLiteral v)) else pure none
    | e => foldedWord? p e
  let unlessTaken (n : Int) (text : String) : Result (Option Expr) := do
    if (<- taken).any fun s => (s : Int) == n then return none
    return some (.literal {} (.text text) word none)
  match value with
  | none => return none
  | some (.int i) => unlessTaken i (toString i)
  | some (.bool b) => unlessTaken b.toInt (ofBool b)
  | some (.bytes bs) => unlessTaken (Hash.bytesToNat bs) ("0x" ++ Hash.bytesToHex bs)
  | some (.text s) =>
    if s != "" && s.toList.all isDecimal then unlessTaken (<- decimal s) s
    else return some (.literal {} (.text s) word none)
  | some _ => return some e

def fallbackSlot? (taken : Result (List Nat)) (c : ContractId) : Result (Option ConstantSlot) := do
  let p := a.program
  let some f := (p.entryPoints c).find? p.isFallback | return none
  let g := a.flow f
  let some entry := g.entry | return none
  let order := Search.reach g.sons (g.nodes.size * g.nodes.size + 1) [entry]
  let found <- order.foldlM (fun (found : Option (Option Expr)) n => do
    if found.isSome then return found
    let node := g.node n
    match node.kind, node.code with
    | .assembly, some (.str code) => return some (assemblySlot? code)
    | .expression, _ =>
      match node.expr with
      | some e => return (<- expressionSlot? p taken e).map some
      | none => return none
    | _, _ => return none) none
  return (found.bind id).map fun e => { name := "fallback_sload_hardcoded", expr := e, contract := c }

/-! ## Surveys -/

structure Survey where
  maxDepth : Nat := 20
  unstructured : Bool := false
  variableName : Option String := none
  selection : Selection := {}

def targets : List (ContractId × VariableId) :=
  contracts.flatMap fun c => ((p.contract c).variablesOrdered.filter fun v =>
    p.isStored v && (s.variableName.all fun n => (p.var v).name == n)).map fun v => (c, v)

def constantSlots : Result (List ConstantSlot) := do
  let p := a.program
  contracts.zipIdx.flatMapM fun (c, i) => do
    let constants := ((p.contract c).variablesOrdered.filter fun v =>
      let x := p.var v
      !p.isStored v && x.isConstant && (if let some (.elementary t) := x.type then t == .bytesN 32 else false)).map fun v =>
      ({ name := (p.var v).name, expr := (p.var v).expr.getD .omitted, contract := c, declaration := some v } :
        ConstantSlot)
    let taken := (targets s p (contracts.take (i + 1))).mapM fun (d, v) => do return (<- variablePlace a d v).1
    return constants ++ (<- fallbackSlot? a taken c).toList

def unstructuredSlots : Result (Table String SlotTree) := do
  collect (<- constantSlots s a contracts) fun k => do
    let some n <- constantSlot? a.program k.expr | return none
    return (<- slotType? a contracts k).map fun (type, size) => (k.name, .leaf ⟨k.name, type, n.toNat, size, 0⟩ [])

def survey : Result (Table String SlotTree) := do
  let p := a.program
  match s.variableName with
  | some _ =>
    collect (targets s p contracts) fun (c, v) => do
      return (<- slotOf? a c v s.selection).map fun slot => ((p.contract c).name ++ "." ++ (p.var v).name, .leaf slot [])
  | none =>
    let slots <- collect (targets s p contracts) fun (c, v) => do
      return (<- treeOf? a s.maxDepth c v).map ((p.var v).name, ·)
    if s.unstructured then return update slots (<- unstructuredSlots s a contracts) else return slots

mutual
def SlotTree.slots : SlotTree -> List Slot
  | .leaf s parts => s :: SlotTree.slotsOf parts
  | .group parts => SlotTree.slotsOf parts

def SlotTree.slotsOf : List (String × SlotTree) -> List Slot
  | [] => []
  | (_, t) :: rest => SlotTree.slotsOf rest ++ t.slots
end

/-- Without slots there is none. -/
def slotTable (slots : Table String SlotTree) : Result String :=
  match SlotTree.slotsOf slots with
  | [] => .ok "None"
  | rows => Report.TextTable.render ⟨["name", "type_string", "slot", "size", "offset", "value"],
      rows.map fun s => [s.name, s.type, toString s.slot, toString s.size, toString s.offset, "None"], true, none⟩

end Storage

end ContractAudit
