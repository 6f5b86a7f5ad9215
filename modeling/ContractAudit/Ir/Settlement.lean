import ContractAudit.Ir.Propagation

/-! # Code of a node

Arguments go to their calls, operations that are not needed go, and constants take the types of what they are assigned to.
-/

namespace ContractAudit

open Ir

namespace Lower

/-! ## Arguments -/

def parameterNames (p : Program) (c : Call) : Option (List (List String)) :=
  let namesOf (vs : List VariableId) : List String := vs.map fun v => (p.var v).name
  let ofFunction (f : FunctionId) : List (List String) :=
    (f :: (p.function f).overrides).map fun g => namesOf (p.function g).parameters
  match c.kind with
  | .newStruct s =>
    let isMapping (v : VariableId) : Bool := (p.var v).type.any (·.isMapping)
    some [namesOf ((p.structMembers s).filter (!isMapping ·))]
  | .internal (some f) _ _ | .highLevel _ _ (some (.func f)) | .library _ _ (some (.func f)) => some (ofFunction f)
  | .dynamic _ (.function _ _ params _) => some [namesOf params]
  | _ => none

def placesOf (callNames : List String) : List String -> List Nat -> List Nat
  | [], seen => seen
  | n :: ns, seen =>
    (callNames.findIdx? (· == n)).elim [] fun i => placesOf callNames ns (if seen.contains i then seen else seen ++ [i])

def reorder (args : List Value) (callNames : List String) (declared : List (List String)) : Lower (List Value) := do
  require (args.length == callNames.length)
  require (declared.all (callNames.length == ·.length))
  let places := declared.foldl (fun seen ns => if seen.length == args.length then seen else placesOf callNames ns seen) []
  return places.filterMap fun i => args[i]?

structure Pending where
  value : Table String Value := []
  gas : Table String Value := []
  arguments : List Value := []

def complete (pending : Pending) (c : Call) : Lower (Call × Pending) := do
  let p <- program
  let find (t : Table String Value) : Option Value := c.key.bind (t.find? ·)
  let c := match c.kind with
    | .highLevel .. | .library .. | .dynamic .. =>
      { c with value := (find pending.value).or c.value, gas := (find pending.gas).or c.gas }
    | .newContract _ => { c with value := (find pending.value).or c.value }
    | _ => c
  let arguments <- c.names.elim (pure pending.arguments) fun names =>
    (parameterNames p c).elim (pure pending.arguments) (reorder pending.arguments names)
  return ({ c with arguments := c.arguments ++ arguments }, { pending with arguments := [] })

def removeFirst (v : Value) : List Value -> List Value
  | [] => []
  | w :: ws => if w.same v then ws else w :: removeFirst v ws

def convert (place : Place) (all : List Draft) : List Draft -> Pending -> Lower (List Instr)
  | [], _ => return []
  | d :: ds, pending => do
    let instr? : Option Instr <- match d.kind with
      | .done op => pure (some ⟨op, d.expr⟩)
      | .pending c => do pure (some (<- resolve place all (all.length + 1) c d.expr))
      | _ => pure none
    match d.kind, instr? with
    | .argument v role key, _ =>
      let pending := match role, key with
        | .gas, some k => { pending with gas := pending.gas.insert k v }
        | .value, some k => { pending with value := pending.value.insert k v }
        | _, _ => { pending with arguments := pending.arguments ++ [v] }
      convert place all ds pending
    | _, none => convert place all ds pending
    | _, some i =>
      let (i, pending) <- match i.op with
        | .conversion _ v _ => pure (i, { pending with arguments := removeFirst v pending.arguments })
        | .call c => do
          let (c, pending) <- complete pending c
          pure ({ i with op := .call c }, pending)
        | _ => pure (i, pending)
      let here <- propagate place i
      let rest <- convert place all ds pending
      return here ++ rest

/-! ## Operations that are not needed -/

def asksElementary (op : Op) : Lower Bool := do
  match op with
  | .call { kind := .builtin (.builtinFunction "type()"), arguments := args, .. } =>
    match args with
    | [] => throw .outOfRange
    | .type (.elementary _) :: _ => return true
    | _ => return false
  | _ => return false

/-- The last operation stays. -/
def removeUnused (last : Nat) : Nat -> List (Nat × Instr) -> Lower (List (Nat × Instr))
  | 0, instrs => return instrs
  | fuel + 1, instrs => do
    let s <- get
    let text (v : Value) : String := s.program.valueText s.store v
    let kept := instrs.flatMap fun (_, i) =>
      i.op.reads.map text ++ (i.op.lvalue?.elim [] fun l => if l.isReference && !i.op.isAccess then [text l] else [])
    let unused (k : Nat) (op : Op) : Bool := if let .member l _ _ := op then k != last && !kept.contains (text l) else false
    let remaining <- instrs.filterM fun (_, i) => return !(<- asksElementary i.op)
    let (gone, remaining) := remaining.partition fun (k, i) => unused k i.op
    if gone.isEmpty then return remaining else removeUnused last fuel remaining

def findParts (instrs : List Instr) : Lower Unit := do
  for i in instrs do
    match i.op with
    | .index l a _ | .member l a _ => setPart l a
    | _ => pure ()

/-! ## Types of constants -/

def isUnsigned (v : Value) : Lower Bool := do
  match <- typing v with
  | .one (.elementary t) => return !t.isSigned
  | .one t => match t with
    | .mapping _ _ | .function .. => lacks (.type t) "type"
    | _ => return true
  | .unknown => lacks .absent "type"
  | .several _ => lacks (.list []) "type"
  | .function _ => return true

/-- The flag says that something changed. -/
def toSigned (v : Value) (t : Option Ty) : Lower (Value × Bool) := do
  match t with
  | some (.elementary t) =>
    if !t.isSigned then return (v, false)
    if !(<- isUnsigned v) then return (v, false)
    match v with
    | .constant c => return (.constant { c with type := t }, true)
    | v =>
      setType v (.elementary t)
      return (v, true)
  | _ => return (v, false)

def argumentsToSigned : List Value -> List (Option Ty) -> Lower (List Value × Bool)
  | v :: vs, t :: ts => do
    let (v, a) <- toSigned v t
    let (vs, b) <- argumentsToSigned vs ts
    return (v :: vs, a || b)
  | vs, _ => return (vs, false)

def parameterTypes (callee : Option Target) : Lower (List (Option Ty)) := do
  let p <- program
  let ofFunction (f : FunctionId) := (p.function f).parameters.map fun v => (p.var v).type
  match callee with
  | some (.func f) => return ofFunction f
  | some (.var v) =>
    if !p.isStateVariable v then lacks (.var v) "parameters"
    let keys := (p.var v).type.elim [] p.keyTypes
    return keys.map fun k => match k with
      | .type t => t
      | .tuple _ => none
  | _ => lacks .absent "parameters"

def operandToSigned (l v : Value) : Lower (Value × Bool) := do
  match v, <- typing l with
  | .constant c, .one (.elementary t) =>
    if t.isSigned && !c.type.isSigned then return (.constant { c with type := t }, true)
    return (v, false)
  | _, _ => return (v, false)

def constantsToSigned (op : Op) : Lower (Op × Bool) := do
  match op with
  | .assign l v =>
    let (v, changed) <- operandToSigned l v
    return (.assign l v, changed)
  | .binary l o a b =>
    let (a, x) <- operandToSigned l a
    let (b, y) <- operandToSigned l b
    return (.binary l o a b, x || y)
  | .call c =>
    let callee? : Option (Option Target) := match c.kind with
      | .highLevel _ _ f | .library _ _ f => some f
      | .internal f _ _ => some (f.map .func)
      | _ => none
    match callee?, c.kind with
    | some callee, _ =>
      let types <- parameterTypes callee
      require (types.length == c.arguments.length)
      let (args, changed) <- argumentsToSigned c.arguments types
      return (.call { c with arguments := args }, changed)
    | none, .newStruct s =>
      let p <- program
      let types := (p.structMembers s).map fun v => (p.var v).type
      if types.length < c.arguments.length then throw .outOfRange
      let (args, changed) <- argumentsToSigned c.arguments types
      return (.call { c with arguments := args }, changed)
    | none, _ => return (op, false)
  | op => return (op, false)

def settleConstants : Nat -> List Instr -> Lower (List Instr)
  | 0, instrs => return instrs
  | fuel + 1, instrs => do
    let results <- instrs.mapM fun i => do
      let (op, changed) <- constantsToSigned i.op
      return ({ i with op }, changed)
    let instrs := results.map (·.1)
    if results.any (·.2) then settleConstants fuel instrs else return instrs

def settleDelete (i : Instr) : Lower Instr := do
  match i.op with
  | .delete l v =>
    if l.isReference then
      let s <- store
      return { i with op := .delete ((s.pointsTo l).getD .absent) v }
    return i
  | _ => return i

def noteReferences (instrs : List Instr) : Lower Unit := do
  for i in instrs do
    let target? : Option Target := match i.op with
      | .call c => match c.kind with
        | .newContract (.contract k) => some (.contract k)
        | .highLevel _ _ f | .library _ _ f => f
        | _ => none
      | _ => none
    if let (some t, some e) := (target?, i.expr) then
      modify fun s => { s with program := { s.program with references := s.program.references.push (t, e.source) } }

/-! ## Nodes -/

def settle (place : Place) (drafts : List Draft) : Lower (List Instr) := do
  let (drafts, gone) <- settleOptions (2 * drafts.length + 2) drafts []
  let instrs <- convert place (drafts ++ gone) drafts {}
  let numbered := instrs.zipIdx.map fun (i, k) => (k, i)
  let instrs := (<- removeUnused (numbered.length - 1) (numbered.length + 1) numbered).map (·.2)
  findParts instrs
  let solidity := ((<- program).function place.function).language != .vyper
  let instrs <- if solidity then do
      let instrs <- settleConstants (4 * instrs.length + 64) instrs
      instrs.mapM settleDelete
    else pure instrs
  noteReferences instrs
  return instrs

def ofExpression (place : Place) (kind : NodeKind) (e : Expr) : Lower (List Instr) := do
  let isBranch := kind == .branch || kind == .loopBranch
  let condition (v : Value) : Lower Instr := do
    require (<- canBeRead v)
    return ⟨.condition v, some e⟩
  match isBranch, e with
  | true, .literal _ v t _ => return [<- condition (<- literalOf v t none)]
  | true, .name _ t _ _ => return [<- condition (.target t)]
  | _, _ =>
    modify fun s => { s with drafts := #[] }
    let v <- visit e
    if kind == .returns then emit (<- returns (<- valueOf v)) (some e)
    let instrs <- settle place (<- get).drafts.toList
    if !isBranch then return instrs
    let some last := instrs.getLast? | return []
    let l <- need last.op.lvalue? (.broken "")
    return instrs ++ [<- condition l]

end Lower

end ContractAudit
