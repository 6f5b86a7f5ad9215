import ContractAudit.Print.Basic
import ContractAudit.Report.Document

/-! # Hints for fuzzing

Which functions depend on the block or the sender, which constants they compare with, and which influence each other.
-/

namespace ContractAudit.Print

open Ir Table

variable (a : Analysis) (op : Op) (s : Seat) (p : Program) (f : FunctionId) (x : PrintInput)

def callName : String :=
  if (p.function f).kind == .fallback || (p.function f).kind == .receive then "()" else p.soliditySignature f

/-- Contracts without any are left out. -/
def entriesWhere (test : Analysis -> FunctionId -> Bool) : Json :=
  .obj (ofList (x.contracts.filterMap fun s =>
    let names := ((s.program.entryPoints s.contract).filter (test s.unit)).map (callName s.program)
    if names.isEmpty then none else some (s.name, .arr (names.map .str))))

def readers (name : String) : Json := entriesWhere x fun a f => (a.allBuiltinsRead f).any (·.same (.target (.member name)))

def assertions : List (String × Json) :=
  let a := s.unit
  let p := s.program
  let found := (p.entryPoints s.contract).flatMap fun f =>
    (a.overCallees f fun g => a.placedCalls g (·.builtinCalls)).filterMap fun i => match i.instr.op with
      | .call { kind := .builtin (.builtinFunction "assert(bool)"), .. } =>
        some (callName p f, ((a.flow i.function).node i.node).source.document)
      | _ => none
  let grouped := found.foldl (fun (t : Table String (List Json)) (name, j) => t.alter name [] (· ++ [j])) []
  grouped.map fun (name, js) => (name, .arr js)

def isOld : Bool := Text.startsWith p.version "0.4"

def mayChange : Result Bool :=
  let p := a.program
  match op with
  | .call c => match c.kind with
    | .dynamic .. | .event _ | .newContract _ | .lowLevel .. | .send .. | .transfer .. => .ok true
    | .builtin (.builtinFunction n) => .ok (n == "selfdestruct(address)" || n == "suicide(address)")
    | .highLevel _ _ callee | .library _ _ callee => match callee with
      | some (.func g) => .ok (if (p.function g).view || (p.function g).pure then isOld p else true)
      | some _ => .ok (isOld p)
      | none => .error (.lacks "NoneType" "view")
    | .internal (some g) _ _ => .ok ((p.function g).parameters.any p.isStorageLocal)
    | _ => .ok false
  | _ => .ok false

def keepsState : Result Bool := do
  let x := a.program.function f
  if (x.view || x.pure) && !isOld a.program then return true
  if x.payable || x.implemented != some true || x.containsAssembly || !(a.allStateWritten f).isEmpty then return false
  return !(<- (a.allPlacedInstrs f).anyM (mayChange a ·.instr.op))

def constantNames : Result (List Json) := do
  let p := s.program
  let functions <- (p.entryPoints s.contract).filterM (keepsState s.unit)
  return (functions.map (callName p) ++ s.publicVars.map p.getterSignature).map .str

structure ConstantUse where
  value : String
  type : String
  deriving DecidableEq

namespace ConstantUse

def json (c : ConstantUse) : Json := .arr [.obj [("value", .str c.value), ("type", .str c.type)]]

def list (cs : List ConstantUse) : Json := .arr (cs.eraseDups.map json)

def ofConstant (c : Constant) : ConstantUse := ⟨c.render, c.type.name⟩

def ofExpr (type : String) (e : Expr) : Result (List ConstantUse) :=
  match p.fold type e with
  | .ok v => .ok [⟨v.render p, type⟩]
  | .error (.notConstant _) => .ok []
  | .error fault => .error fault

end ConstantUse

def wholeOf (s : Store) (v : Value) : Option Value := if v.isReference then s.origin v else some v

def conversionType : Ty -> String
  | .valueType v => (p.valueType v).underlying.name
  | t => p.typeText t

def constantsRead (v : Value) : Result (List ConstantUse) :=
  let p := a.program
  match wholeOf a.store v with
  | some (.constant c) => .ok [.ofConstant c]
  | some (.target (.var x)) =>
    if !(p.var x).isConstant then .ok []
    else
      let type := if let .conversion _ _ t := op then conversionType p t else p.variableTypeText x
      ConstantUse.ofExpr p type ((p.var x).expr.getD .omitted)
  | _ => .ok []

def constantsUsed (i : Instr) : Result (List ConstantUse) := do
  let p := a.program
  match i.op with
  | .conversion _ (.constant c) t => return [⟨c.render, conversionType p t⟩]
  | .member _ (.target (.enum e)) name =>
    return ((p.enum e).values.findIdx? (· == name.render)).toList.map fun k => ⟨toString k, "uint256"⟩
  | .member .. => return []
  | op =>
    let folded <- match op with
      | .binary r _ l m =>
        if l.isConstant || m.isConstant then
          ConstantUse.ofExpr p ((OpStyle.plain p a.store false).typeOf r) (i.expr.getD .omitted)
        else .ok []
      | _ => .ok []
    let read <- op.reads.mapM (constantsRead a op)
    return folded ++ read.flatten

def constantsInBinary (ops : List Op) : Table String (List ConstantUse) :=
  ops.foldl (fun t op => match op with
    | .binary _ o l r => [l, r].foldl (fun t v => match v with
      | .constant c => t.alter ("BinaryType." ++ o.name) [] (· ++ [.ofConstant c])
      | _ => t) t
    | _ => t) []

def initialPlaces : List Place :=
  match op with
  | .member .. => []
  | op => op.reads.filterMap fun v => match wholeOf a.store v with
    | some (.target (.var x)) => if a.program.isStateVariable x then (a.program.var x).initNode else none
    | _ => none

def instrsWithInitial : List Instr :=
  let own := (a.allPlacedInstrs f).map (·.instr)
  let next (q : Place) : List Place := (a.instrs q.1 q.2).flatMap (initialPlaces a ·.op)
  let places := Search.reach next (a.program.nodeCount * (a.program.nodeCount + 1) + own.length * own.length + 1)
    (own.flatMap (initialPlaces a ·.op))
  own ++ places.flatMap fun (g, n) => a.instrs g n

def contractConstants : Result (Table String Json × Table String Json) := do
  let a := s.unit
  (s.program.entryPoints s.contract).foldlM (fun (used, inBinary) f => do
    let instrs := instrsWithInitial a f
    let constants := (<- instrs.mapM (constantsUsed a)).flatten
    let binary := constantsInBinary (instrs.map (·.op))
    let name := callName s.program f
    return (if constants.isEmpty then used else used.insert name (ConstantUse.list constants),
      if binary.isEmpty then inBinary
      else inBinary.insert name (.obj (binary.map fun (k, cs) => (k, ConstantUse.list cs))))) ([], [])

def relations : Json :=
  let a := s.unit
  let entries := s.program.entryPoints s.contract
  let named := ofList (entries.map fun f => (callName s.program f, f))
  .obj (ofList (entries.map fun f =>
    let influencing := named.filter fun (_, g) => (a.allStateRead f).any (a.allStateWritten g).contains
    let influenced := named.filter fun (_, g) => (a.allStateWritten f).any (a.allStateRead g).contains
    (callName s.program f, .obj [("impacts", .arr (influenced.map (.str ·.1))),
      ("is_impacted_by", .arr (influencing.map (.str ·.1)))])))

def asksBalance : Bool := op matches .call { kind := .builtin (.builtinFunction "balance(address)"), .. }

def whereGiven (rows : List (String × List (String × Json))) : Json :=
  .obj (ofList ((rows.filter (!·.2.isEmpty)).map fun (name, fields) => (name, .obj fields)))

def contractsWith (kind : FunctionKind) : Json :=
  let found := x.contracts.filter fun s => (s.program.entryPoints s.contract).any fun f => (s.program.function f).kind == kind
  .arr ((found.map Seat.name).eraseDups.map .str)

def distinctLists : Json -> Json
  | .obj fields => .obj (fields.map fun (k, j) => match j with
    | .arr items => (k, .arr ((items.filterMap Json.str?).eraseDups.map .str))
    | j => (k, j))
  | j => j

def fuzzing : Printer where
  name := "echidna"
  print x := do
    let constantFunctions <- x.contracts.mapM fun s => do return (s.name, <- constantNames s)
    let constants <- x.contracts.mapM fun s => do return (s.name, <- contractConstants s)
    let constructors := x.contracts.filterMap fun s => (s.program.constructor? s.contract).map fun f =>
      (s.name, .str (s.program.functionFullName f))
    let hints : List (String × Json) :=
      [("payable", entriesWhere x fun a f => (a.program.function f).payable),
        ("timestamp", readers x "block.timestamp"), ("block_number", readers x "block.number"),
        ("msg_sender", readers x "msg.sender"), ("msg_gas", readers x "msg.gas"),
        ("assert", whereGiven (x.contracts.map fun s => (s.name, assertions s))),
        ("constant_functions", .obj (ofList ((constantFunctions.filter (!·.2.isEmpty)).map fun (n, js) => (n, .arr js)))),
        ("constants_used", whereGiven (constants.map fun (n, used, _) => (n, used))),
        ("constants_used_in_binary", whereGiven (constants.map fun (n, _, inBinary) => (n, inBinary))),
        ("functions_relations", .obj (ofList (x.contracts.map fun s => (s.name, relations s)))),
        ("constructors", .obj (ofList constructors)),
        ("have_external_calls", distinctLists (entriesWhere x fun a f =>
          !(a.allOutwardCalls f).isEmpty || !(a.allLowLevelCalls f).isEmpty)),
        ("use_balance", distinctLists (entriesWhere x fun a f => (a.allPlacedInstrs f).any (asksBalance ·.instr.op))),
        ("solc_versions", .arr (x.units.map (.str ·.program.version))),
        ("with_fallback", contractsWith x .fallback), ("with_receive", contractsWith x .receive)]
    return .ofText (Json.obj hints).canonical.print
  asks _ a := a.program.contracts.flatMap a.program.entryPoints

end ContractAudit.Print
