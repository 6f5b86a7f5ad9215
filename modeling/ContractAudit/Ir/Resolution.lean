import ContractAudit.Ir.Expression
import ContractAudit.Program.Contracts

/-! # Resolution of calls

Value and gas of a call can be given by calls of their own, as in `x.f.value(1).gas(2)(args)`. Such calls are taken out, and
their arguments become options of the call that they lead to.
-/

namespace ContractAudit

open Ir Table

namespace Lower

variable (drafts : List Draft)

def draftAt? (key : Nat) : Option Draft := drafts.find? (·.key == key)

def memberOrigin? (c : PendingCall) : Option (Value × Constant) := do
  if let .done (.member _ l n) := (<- draftAt? drafts (<- c.origin)).kind then some (l, n) else none

def isWord (c : Constant) (s : String) : Bool := if let .text t := c.value then t == s else false

def optionGiven? (d : Draft) : Option (ArgumentRole × Value × PendingCall) := do
  match d.kind with
  | .pending c =>
    let (l, n) <- memberOrigin? drafts c
    if isWord n "value" then some (.value, l, c)
    else if isWord n "gas" then some (.gas, l, c)
    else none
  | _ => none

def findOrigins : Lower (List Draft) := do
  let (_, done) <- drafts.foldlM (fun (written, done) d => do
    let written <- match d.lvalue? with
      | some v => do pure (insert (<- nameOf v) d.key written)
      | none => pure written
    let d <- match d.kind with
      | .pending c =>
        if c.called.isVariable then do
          match find? (<- nameOf c.called) written with
          | some key => pure { d with kind := .pending { c with origin := some key } }
          | none => pure d
        else pure d
      | _ => pure d
    return (written, d :: done)) (([] : Table String Nat), ([] : List Draft))
  return done.reverse

structure Options where
  gone : List Nat := []
  standsFor : Table String Value := []
  changed : Bool := false

/-- A call gives an option if its argument stands right before it. -/
def markOptions (all : List Draft) : List Draft -> Options -> Lower (List Draft × Options)
  | [], found => return ([], found)
  | [d], found => return ([d], found)
  | a :: d :: rest, found =>
    match a.kind, optionGiven? all d with
    | .argument v _ _, some (role, for_, c) => do
      let name <- nameOf for_
      let a := { a with kind := .argument v role (some name) }
      let found := { found with
        gone := d.key :: found.gone, standsFor := found.standsFor.insert (<- nameOf c.result) for_, changed := true }
      let (ds, found) <- markOptions all (d :: rest) found
      return (a :: ds, found)
    | _, _ => do
      let (ds, found) <- markOptions all (d :: rest) found
      return (a :: ds, found)

def redirectCall (found : Options) : Nat -> PendingCall -> Bool -> Lower (PendingCall × Bool)
  | 0, c, changed => return (c, changed)
  | fuel + 1, c, changed => do
    let some v := found.standsFor.find? (<- nameOf c.called) | return (c, changed)
    redirectCall found fuel { c with called := v, key := some (<- nameOf v) } true

def redirectKey (found : Options) : Nat -> Option String -> Bool -> Lower (Option String × Bool)
  | 0, key, changed => return (key, changed)
  | fuel + 1, key, changed => do
    let some v := key.bind fun k => found.standsFor.find? k | return (key, changed)
    redirectKey found fuel (some (<- nameOf v)) true

def redirect (found : Options) (d : Draft) : Lower (Draft × Bool) := do
  let fuel := found.standsFor.length + 1
  match d.kind with
  | .pending c =>
    let (c, changed) <- redirectCall found fuel c false
    return ({ d with kind := .pending c }, changed)
  | .argument v role key =>
    let (key, changed) <- redirectKey found fuel key false
    return ({ d with kind := .argument v role key }, changed)
  | _ => return (d, false)

/-- Drafts that went are kept in `gone`, since calls may come from them. -/
def settleOptions : Nat -> List Draft -> List Draft -> Lower (List Draft × List Draft)
  | 0, drafts, gone => return (drafts, gone)
  | fuel + 1, drafts, gone => do
    let drafts <- findOrigins drafts
    let (drafts, found) <- markOptions (drafts ++ gone) drafts {}
    let (out, drafts) := drafts.partition (found.gone.contains ·.key)
    let redirected <- drafts.mapM (redirect found)
    let drafts := redirected.map (·.1)
    let gone := gone ++ out
    if found.changed || redirected.any (·.2) then settleOptions fuel drafts gone else return (drafts, gone)

end Lower

/-! ## Callees -/

def Elementary.isSigned : Elementary -> Bool
  | int _ => true
  | _ => false

def Elementary.isByteArray : Elementary -> Bool
  | bytes | bytesN _ => true
  | _ => false

namespace Program

def comparedType (p : Program) : ValueTyping -> String
  | .one (.contract _) => "address"
  | .one t => p.typeText t
  | .unknown => "None"
  | .function f => p.functionName f
  | .several _ => "[]"

/-- From 56 bits on the bound is a power of two. -/
def signedBound (bits : Nat) : Int := if bits ≤ 48 then Int.pow 2 (bits - 1) - 1 else Int.pow 2 (bits - 1)

def integerTypes (n : Int) (signed unsigned : Bool) : List String :=
  (List.range 32).flatMap fun k =>
    let bits := 8 * (k + 1)
    (if unsigned && n ≤ Int.pow 2 bits - 1 then [s!"uint{bits}"] else [])
      ++ (if signed && n ≤ signedBound bits then [s!"int{bits}"] else [])

def byteTypes : ConstantValue -> List String
  | .int n =>
    let digits := (Text.hexDigits n.toNat).length
    [s!"bytes{digits / 2}"]
  | .bool _ => []
  | .text s =>
    let length := s.utf8ByteSize
    ((List.range 33).filter (length ≤ ·)).map (fun n => s!"bytes{n}") ++ ["bytes"]

def argumentTypes (p : Program) (t : Elementary) (constant : Option ConstantValue) : List String :=
  if t.isInteger then
    match constant with
    | some (.int n) => integerTypes n true true
    | some (.bool b) => integerTypes (if b then 1 else 0) true true
    | _ => if let some (some n) := t.max? then integerTypes n t.isSigned !t.isSigned else []
  else if t.isByteArray || t == .string then
    let value : Option ConstantValue := constant.elim ((t.max?.bind id).map .int) some
    value.elim ["bytes", "string"] fun v => byteTypes v ++ (if t == .string then ["string"] else [])
  else [p.typeText (.elementary t)]

def candidatesOfType (types : List String) (parameter : FunctionId -> String) (candidates : List FunctionId) :
    List FunctionId :=
  match types with
  | [] => []
  | t :: ts =>
    match candidates.filter fun f => parameter f == t with
    | [] => candidatesOfType ts parameter candidates
    | fs => fs

end Program

namespace Lower

def typesOfArgument (v : Value) : Lower (List String) := do
  let p <- program
  match v with
  | .list (item :: _) =>
    let _ <- typing item
    lacks v "type"
  | .list [] => throw .outOfRange
  | .target (.func f) => return [p.functionSignature f]
  | v =>
    let t <- typing v
    let some e := t.elementary? | return [p.comparedType t]
    return p.argumentTypes e (if let .constant c := v then some c.value else none)

/-- Unless all arguments are to be compared, the first that leaves one candidate decides. -/
def findByArguments (compareAll : Bool) : List (Nat × Value) -> List FunctionId -> Lower (Option FunctionId)
  | [], [f] => return some f
  | [], _ => return none
  | (i, v) :: rest, candidates => do
    let types <- typesOfArgument v
    let p <- program
    if candidates.any fun f => (p.function f).parameters.length ≤ i then throw .outOfRange
    let parameter (f : FunctionId) : String := ((p.function f).parameters[i]?).elim "" fun x =>
      p.comparedType (.ofOption (p.var x).type)
    match Program.candidatesOfType types parameter candidates with
    | [f] => if compareAll then findByArguments compareAll rest [f] else return some f
    | fs => findByArguments compareAll rest fs

def findFunction (arguments : List Value) (candidates : List FunctionId) (compareAll : Bool) :
    Lower (Option FunctionId) :=
  findByArguments compareAll (arguments.zipIdx.map fun (v, i) => (i, v)) candidates

end Lower

namespace Program

def boundTo (p : Program) (t : Option Ty) (table : UsingTable) : Option (List UsingItem) :=
  (table.find? fun (k, _) => match k, t with
    | none, none => true
    | some a, some b => p.sameType a b && p.typeText a == p.typeText b
    | _, _ => false).map (·.2)

/-- What both bind to one type is put together, the second table first. -/
def mergeUsing (p : Program) (a b : UsingTable) : UsingTable :=
  let kept := a.map fun (k, items) => (p.boundTo k b).elim (k, items) fun more => (k, more ++ items)
  kept ++ b.filter fun (k, _) => (p.boundTo k a).isNone

def usingOf (p : Program) (f : FunctionId) : UsingTable :=
  let (start, scope) : UsingTable × ScopeId := match (p.function f).place with
    | .inContract c _ => ((p.contract c).usingFor, (p.contract c).scope)
    | .topLevel s => ([], s)
  (p.scope scope).usings.foldl (fun t u => p.mergeUsing t (p.using_ u).table) start

end Program

/-! ## Resolution of calls -/

namespace Lower

variable (c : PendingCall)

structure Place where
  function : FunctionId
  contract : Option ContractId

def fullKindName (p : Program) (v : Value) : String :=
  let name := p.valueKindName v
  let module_ := match v with
    | .target (.var x) => match (p.var x).kind with
      | .state _ => "core.variables.state_variable"
      | .inFunction _ none => "core.variables.local_variable"
      | .inFunction _ (some _) => "core.variables.local_variable_init_from_tuple"
      | .topLevel _ => "core.variables.top_level_variable"
      | .structMember _ => "core.variables.structure_variable"
      | .eventParameter => "core.variables.event_variable"
      | .functionTypeParameter => "core.variables.function_type_variable"
    | .target (.member _) => "core.declarations.solidity_variables"
    | .target (.imported _) => "core.declarations.solidity_import_placeholder"
    | .constant _ => "slithir.variables.constant"
    | .reference _ => "slithir.variables.reference"
    | .tuple _ => "slithir.variables.tuple"
    | _ => "slithir.variables.temporary"
  s!"<class 'slither.{module_}.{name}'>"

def highLevelCall (destination : Value) (name : Constant) : Lower Op := do
  require (destination.isVariable || destination.isBuiltin)
  require (<- canBeWritten c.result)
  return .call {
    kind := .highLevel destination name none, result := some c.result, names := c.names, value := c.value, gas := c.gas
    key := c.key, typeText := c.type }

def builtinCall (callee : Target) : Op := .call { kind := .builtin callee, result := some c.result, typeText := c.type }

def callOnFunction (place : Place) (c : PendingCall) (f : FunctionId) (name : Constant) : Lower Op := do
  let p <- program
  let table := if place.contract.isSome then p.usingOf place.function else []
  let items := ((p.boundTo none table).getD []) ++ ((p.boundTo (some (.function [] [] [] [])) table).getD [])
  let candidates <- items.flatMapM fun item => do
    match item with
    | .func g =>
      match (p.function g).place with
      | .inContract _ _ => return [g]
      | .topLevel _ => throw (.lacks (if (p.function g).returns.isEmpty then "NoneType" else "list") "functions")
    | .library (.contract l) => return (p.contract l).functions.values.filter fun g => isWord name (p.functionName g)
    | .library _ => return []
  match candidates with
  | [g] =>
    let owner <- need (p.functionContract? g) (.broken "")
    let callee <- ofExcept (Constant.ofLiteral (p.functionName g) none none)
    return .call {
      kind := .library (.contract owner) callee (some (.func g)), result := some c.result, arguments := [.func f]
      names := c.names, gas := c.gas, key := c.key, typeText := "d" }
  | _ =>
    throw (.lowering ("Slither does not support dynamic functions to libraries if functions have the same name"
      ++ Text.quotedList (candidates.map p.functionFullName)))

def callOnContract (place : Place) (c : PendingCall) (owner : ContractId) (name : Constant) : Lower Op := do
  let p <- program
  let x := p.contract owner
  let word := name.render
  let event : Op := .call { kind := .event word, key := c.key }
  let inherited := place.contract.any fun d => owner == d || (p.contract d).inheritance.contains owner
  if inherited then
    let here := p.contract (place.contract.getD 0)
    if here.functions.values.any fun f => p.functionName f == word then
      return .call { kind := .internal none word x.name, result := some c.result, key := c.key, typeText := c.type }
    if here.events.values.any fun e => (p.event e).name == word then return event
  if let some s := x.structs.values.find? fun s => (p.struct s).name == word then
    require (<- canBeWritten c.result)
    return .call { kind := .newStruct s, result := some c.result, names := c.names, key := c.key }
  if x.events.values.any fun e => (p.event e).name == word then return event
  if let some e := x.errors.find? word then return builtinCall c (.customRevert e)
  require (<- canBeWritten c.result)
  return .call {
    kind := .library (.contract owner) name none, result := some c.result, names := c.names, key := c.key, typeText := c.type }

/-- The file is looked for from the file the call stands in. -/
def callOnFile (i : ImportId) (name : Constant) (here : FileName) : Lower Op := do
  let p <- program
  let target := Path.join (Path.parent here.absolute) (p.import_ i).filename
  let candidates := p.functions.filter fun f =>
    (p.function f).source.file.absolute == target && isWord name (p.functionName f)
      && (p.function f).parameters.length == c.count
  return .call {
    kind := .internal none name.render ((p.import_ i).aliasName.getD ""), result := some c.result, key := c.key
    typeText := c.type, candidates }

def objectFile (e : Option Expr) : FileName := if let some (.member _ o _ _) := e then o.source.file else ⟨"", ""⟩

def callOnMember (place : Place) (c : PendingCall) (left : Value) (name : Constant) (access : Option Expr) : Lower Op := do
  match left with
  | .target (.contract owner) => callOnContract place c owner name
  | .target (.func f) => callOnFunction place c f name
  | .target (.imported i) => callOnFile c i name (objectFile access)
  | .type (.elementary .bytes) =>
    if isWord name "concat" then return builtinCall c (.builtinFunction "bytes.concat()")
    highLevelCall c left name
  | .type (.elementary .string) =>
    if isWord name "concat" then return builtinCall c (.builtinFunction "string.concat()")
    highLevelCall c left name
  | _ => highLevelCall c left name

def callOnNew? (drafts : List Draft) (c : PendingCall) : Option (Lower Op) := do
  match (<- draftAt? drafts (<- c.origin)).kind with
  | .newElementary t _ => some do
    require (<- canBeWritten c.result)
    return .call { kind := .newElementary t, result := some c.result }
  | .newContract t _ => some do
    match t with
    | .contract _ => pure ()
    | _ =>
      let p <- program
      let kind := p.typeKindName t
      let text := p.typeText t
      throw (.broken s!"contract_name is {text} of type <class '{kind}'>")
    require (<- canBeWritten c.result)
    return .call { kind := .newContract t, result := some c.result, value := c.value, salt := c.salt, key := c.key }
  | .newArray t _ => some do
    require t.isArray
    return .call { kind := .newArray t, result := some c.result }
  | _ => none

def callOnTarget : Lower Op := do
  let p <- program
  match c.called with
  | .target (.struct s) =>
    require (<- canBeWritten c.result)
    return .call { kind := .newStruct s, result := some c.result, names := c.names, key := c.key }
  | .target (.event e) => return .call { kind := .event (p.event e).name }
  | .target (.contract owner) =>
    match p.constructor? owner with
    | none => return .nop
    | some f =>
      if (p.function f).parameters.length != c.count then return .nop
      let contract := (p.functionDeclarer? f).elim "" fun d => (p.contract d).name
      return .call {
        kind := .internal (some f) (p.functionName f) contract, result := some c.result, names := c.names, key := c.key
        typeText := c.type }
  | v =>
    let s <- store
    throw (.lowering s!"Not extracted {fullKindName p v} {p.valueText s c.result} = TMPCALL{c.count} {p.valueText s v}")

/-- `fuel` bounds the number of calls that a call comes from. -/
def resolve (place : Place) (drafts : List Draft) : Nat -> PendingCall -> Option Expr -> Lower Instr
  | 0, _, _ => throw .depth
  | fuel + 1, c, e => do
    let draft := c.origin.bind (draftAt? drafts)
    let origin := draft.map (·.kind)
    let originExpr := draft.bind (·.expr)
    let onThis := if let some (.done (.member _ l _)) := origin then l.same .this else false
    let type <- if c.called.isVariable then typing c.called else pure .unknown
    if let (.one (.function ps rs pi ri), false) := (type, onThis) then
      require (<- canBeWritten c.result)
      return ⟨.call { kind := .dynamic c.called (.function ps rs pi ri), result := some c.result, key := c.key }, e⟩
    match origin with
    | some (.done (.member _ l n)) => return ⟨<- callOnMember place c l n originExpr, e⟩
    | some (.pending inner) => resolve place drafts fuel inner originExpr
    | _ =>
      match c.called with
      | .target (.member "block.blockhash") => return ⟨builtinCall c (.builtinFunction "blockhash(uint256)"), e⟩
      | .target (.builtinFunction n) => return ⟨builtinCall c (.builtinFunction n), e⟩
      | .target (.customRevert n) => return ⟨builtinCall c (.customRevert n), e⟩
      | .target (.error n) => return ⟨builtinCall c (.customRevert n), e⟩
      | _ =>
        match callOnNew? drafts c with
        | some x => return ⟨<- x, e⟩
        | none =>
          let op <- callOnTarget c
          return match op with
            | .nop => ⟨.nop, none⟩
            | op => ⟨op, e⟩

end Lower

end ContractAudit
