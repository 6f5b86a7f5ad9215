import ContractAudit.Ir.Resolution

/-! # Types of results

Calls whose kind depends on the type of what they are called on are converted at the same time.
-/

namespace ContractAudit

open Ir

namespace Lower

variable (c : Call) (d : Value) (l : Value) (t : ValueTyping) (place : Place) (name : Constant)

def singled : ValueTyping -> ValueTyping
  | .several [.type (some t)] => .one t
  | .several [.type none] => .unknown
  | t => t

/-- A call without results writes nothing. -/
def setResult : Lower Call := do
  if t.isUnknown then return { c with result := none }
  c.result.elim (lacks .absent "set_type") fun r =>
    setTyping r t
    return c

def isOneOf (words : List String) : Bool := words.any (isWord name)

/-! ## Low level calls and functions of the language -/

def lowLevelNames : List String := ["transfer", "send", "call", "delegatecall", "callcode", "staticcall", "raw_call"]

def encodingNames : List String :=
  ["encode", "encodePacked", "encodeWithSelector", "encodeWithSignature", "encodeCall", "decode"]

def toLowLevel : Lower Op := do
  let only : Lower Value := if let [v] := c.arguments then return v else throw (.broken "")
  if isWord name "transfer" then
    let amount <- only
    require (d.isVariable || d.isBuiltin)
    return .call { kind := .transfer d amount }
  if isWord name "send" then
    let amount <- only
    let r <- need c.result (.broken "")
    require (<- canBeWritten r)
    require (d.isVariable || d.isBuiltin)
    setType r .bool
    return .call { kind := .send d amount, result := some r }
  require (d.isVariable || d.isBuiltin)
  let p <- program
  if let some r := c.result then
    if p.version < "0.5" then setType r .bool
    else setTyping r (.several [.type (some .bool), .type (some (.elementary .bytes))])
  return .call {
    kind := .lowLevel d name, result := c.result, arguments := c.arguments, value := c.value, gas := c.gas
    typeText := c.typeText }

def isEncoding : Lower Bool := do if (<- nameOf d) == "abi" then return isOneOf name encodingNames else return false

def typeItem : Value -> TypeItem
  | .type t => .type (some t)
  | .target (.struct s) => .type (some (.struct s))
  | .target (.enum e) => .type (some (.enum e))
  | .target (.contract c) => .type (some (.contract c))
  | .target (.valueType v) => .type (some (.valueType v))
  | v => .value v

def toEncoding : Lower Op := do
  let callee := "abi." ++ name.render ++ "()"
  let r <- need c.result (.broken "")
  if isWord name "decode" then
    match c.arguments, r with
    | [_, .list types], .tuple _ => setTyping r (.several (types.map typeItem))
    | [_, t], _ =>
      if !t.isReference then
        match typeItem t with
        | .type t => setTyping r (.ofOption t)
        | .value (.list items) => setTyping r (.several (items.map typeItem))
        | .value .absent => setTyping r .unknown
        | .value _ => throw (.broken "")
    | _, _ => setTyping r (.several [])
  else setType r (.elementary .bytes)
  return .call {
    kind := .builtin (.builtinFunction callee), result := some r, arguments := c.arguments, typeText := c.typeText }

/-! ## Arrays -/

def elementType : Option Ty :=
  match t with
  | .one (.array t _) => some t
  | .one (.elementary t) => some (.elementary t)
  | _ => none

def toPush : Lower (List Op) := do
  let r <- newReference
  setType r .uint256
  let measured <- length r d
  setPart r d
  let old <- newTemporary
  setType old .uint256
  let read <- assignment old r
  let new <- newTemporary
  let sum <- binary new old (<- constantAt "1" (.one .uint256)) .addition
  let write <- assignment r new
  let type <- need (elementType (<- typing d)) (.broken "")
  let element <- newReference
  setType element type
  let access <- index element d old
  let start := [measured, read, sum, write, access]
  match c.arguments with
  | .list items :: _ =>
    let t <- newTemporary
    setType t type
    let init <- initArray t items
    return start ++ [init, <- assignment element t]
  | v :: _ =>
    let _ <- typing v
    return start ++ [<- assignment element v]
  | [] =>
    let result <- need c.result (.broken "")
    setType result type
    return start ++ [<- assignment result element]

def toPop : Lower (List Op) := do
  let r <- newReference
  setType r .uint256
  let measured <- length r d
  setPart r d
  let new <- newTemporary
  let difference <- binary new r (<- constantAt "1" (.one .uint256)) .subtraction
  let element <- newReference
  let access <- index element d new
  let type := match <- typing d with
    | .one (.array t _) => t
    | _ => .elementary (.bytesN 1)
  setType element type
  let remaining <- newReference
  setType remaining .uint256
  let again <- length remaining d
  setPart remaining d
  return [measured, difference, access, .delete element element, again, <- assignment remaining new]

/-- A single candidate comes first, then a variable. -/
def chosen? : List FunctionId -> Option VariableId -> Lower (Option Target)
  | [f], _ => pure (some (.func f))
  | _, some v => pure (some (.var v))
  | [], none => pure none
  | fs, none => do pure ((<- findFunction c.arguments fs false).map .func)

/-! ## Libraries -/

def toLibrary? (owner : ContractId) (name : Constant) : Lower (Option Op) := do
  let p <- program
  let functions := (p.contract owner).functions.values
  let fits (f : FunctionId) : Bool :=
    isWord name (p.functionName f) && (p.function f).parameters.length == c.arguments.length
  let candidates := functions.filter fun f => fits f && !(p.function f).shadowed
  let getter? := if c.arguments.isEmpty then
      (p.contract owner).vars.values.find? fun v => isWord name (p.var v).name
    else none
  let callee <- chosen? c candidates getter?
  let callee := callee.or ((functions.find? fits).map .func)
  let some callee := callee | return none
  let t := match callee with
    | .func f => singled (p.resultTyping f)
    | .var v => .ofOption (p.var v).type
    | _ => .unknown
  let c <- setResult c t
  return some (.call { c with kind := .library (.contract owner) name (some callee) })

def boundCall? (c : Call) (d : Value) (name : Constant) : List UsingItem -> Lower (Option Op)
  | [] => return none
  | item :: rest => do
    let p <- program
    let arguments := d :: c.arguments
    let direct <- match item with
      | .func f =>
        if (p.functionContract? f).isNone && isWord name (p.functionName f)
            && (p.function f).parameters.length == arguments.length then do
          pure ((<- findFunction arguments [f] true))
        else pure none
      | .library _ => pure none
    match direct with
    | some f =>
      let call <- setResult {
        kind := .internal (some f) (p.functionName f) "", result := c.result, arguments := arguments
        typeText := c.typeText } (singled (p.resultTyping f))
      return some (.call call)
    | none =>
      let owner := match item with
        | .func f => (p.functionContract? f).filter fun l => (p.contract l).isLibrary
        | .library (.contract l) => some l
        | .library _ => none
      let found <- owner.elim (pure none) fun l => toLibrary? {
        kind := .library (.contract l) name none, result := c.result, arguments, names := c.names
        gas := c.gas, typeText := c.typeText } l name
      match found with
      | some op => return some op
      | none => boundCall? c d name rest

def bound? (c : Call) (d : Value) (name : Constant) (t : ValueTyping) : Lower (Option Op) := do
  let p <- program
  let table := p.usingOf place.function
  if let .several _ := t then throw (.badType "unhashable type: 'list'")
  let ofType := t.ty?.bind fun t => p.boundTo (some t) table
  let ofAll := p.boundTo none table
  let ofThis <- if t.isAddress && (<- nameOf d) == "this" then
      place.contract.elim (throw (.lacks "FunctionTopLevel" "contract")) fun owner =>
        pure (p.boundTo (some (.contract owner)) table)
    else pure none
  if ofType.isNone && ofAll.isNone && ofThis.isNone then return none
  match <- boundCall? c d name (ofType.getD []) with
  | some op => return some op
  | none =>
    match <- boundCall? c d name (ofAll.getD []) with
    | some op => return some op
    | none => boundCall? c d name (ofThis.getD [])

/-! ## Calls on contracts -/

def innermost : Ty -> Ty
  | .mapping _ t | .array t _ => innermost t
  | t => t

/-- Mappings and arrays are left out. -/
def memberTypes (p : Program) : Nat -> Option Ty -> Lower (List TypeItem)
  | 0, _ => throw .depth
  | fuel + 1, some (.struct s) => (p.structMembers s).flatMapM fun m => memberTypes p fuel (p.var m).type
  | _ + 1, some (.mapping _ _) | _ + 1, some (.array _ _) => return []
  | _ + 1, some t => match t with
    | .elementary _ | .contract _ | .enum _ | .valueType _ => return [.type (some t)]
    | _ => throw (.broken "")
  | _ + 1, none => throw (.broken "")

/-- A structure that goes to a tuple is taken apart. -/
def setCallee (callee : Target) : Lower Call := do
  let p <- program
  let t <- match callee with
    | .func f => pure (singled (p.resultTyping f))
    | .var v => pure (.ofOption ((p.var v).type.map innermost))
    | _ => lacks .absent "type"
  let t <- match t, c.result with
    | .one (.struct s), some (.tuple _) => do
      let items <- memberTypes p (p.variableTable.size + 2) (some (.struct s))
      pure (.several items)
    | t, _ => pure t
  match t with
  | .several [] =>
    if let some r := c.result then setTyping r t
    return c
  | t => setResult c t

def toContract (owner : ContractId) : Lower Op := do
  let p <- program
  let candidates := (p.contract owner).functions.values.filter fun f =>
    isWord name (p.functionName f) && !(p.function f).shadowed && (p.function f).parameters.length == c.arguments.length
  let getter? := (p.contract owner).vars.values.find? fun v => isWord name (p.var v).name
  let callee <- chosen? c candidates getter?
  match callee with
  | none =>
    if isOneOf name lowLevelNames then toLowLevel c d name
    else if <- isEncoding d name then toEncoding c name
    else lacks .absent "type"
  | some callee =>
    let c <- setCallee c callee
    return .call { c with kind := .highLevel d name (some callee) }

def convertHighLevel (i : Instr) (c : Call) (d : Value) (name : Constant) : Lower (List Instr) := do
  let again (op : Op) : List Instr := [{ i with op }]
  let t <- typing d
  if let .unknown := t then return [i]
  if t.isAddress then if <- isEncoding d name then return again (<- toEncoding c name)
  if let some op <- bound? place c d name t then return again op
  if let some owner := t.contract? then return again (<- toContract c d name owner)
  let p <- program
  let holdsAddress : Bool := match t with
    | .one (.elementary .address) => true
    | .one (.valueType v) => (p.valueType v).underlying == .address
    | _ => false
  if holdsAddress then
    if (<- nameOf d) == "this" then
      let owner <- need place.contract (.broken "")
      return again (<- toContract c d name owner)
    if isOneOf name lowLevelNames then return again (<- toLowLevel c d name)
  let isSequence : Bool := t matches .one (.array _ _) | .one (.elementary .bytes)
  if isSequence then
    if isOneOf name ["push", "append"] && c.arguments.length ≤ 1 then
      return (<- toPush c d).map fun op => { i with op }
    if isWord name "pop" && c.arguments.isEmpty then return (<- toPop d).map fun op => { i with op }
  return [i]

def convertInternal (c : Call) (name contract : String) : Lower Call := do
  let p <- program
  let fits (f : FunctionId) : Bool := p.functionName f == name && (p.function f).parameters.length == c.arguments.length
  let candidates <- if !c.candidates.isEmpty then pure c.candidates else do
    let owner <- need place.contract (.lacks "NoneType" "functions")
    let declared := (p.contract owner).functions.values.filter fun f =>
      fits f && ((p.functionDeclarer? f).map fun d => (p.contract d).name) == some contract
    let imports := (p.scope (p.contract owner).scope).imports.filter fun i => (p.import_ i).aliasName == some contract
    let imported := imports.flatMap fun i => (p.scopeNamed? (p.import_ i).filename).elim [] fun s =>
      (p.scope s).functions.filter fits
    pure (declared ++ imported)
  match <- findFunction c.arguments candidates false with
  | some f =>
    let c <- setCallee c (.func f)
    return { c with kind := .internal (some f) name contract }
  | none =>
    let owner <- need place.contract (.broken "")
    if ((p.contract owner).vars.values.any fun v => (p.var v).name == name) then
      throw (.lacks "StateVariable" "return_type")
    if lowLevelNames.contains name then
      if name == "transfer" || name == "send" then require (c.arguments.length == 1)
      throw (.lacks "InternalCall" "destination")
    lacks .absent "type"

/-! ## Members -/

def knownMember (text : String) (t : Elementary) : Lower Op := do
  let c <- ofExcept (Constant.ofLiteral text (some t) none)
  let op <- assignment l (.constant c)
  setType l (.elementary t)
  return op

def informationMember (subject : Ty) (name : Constant) : Lower Op := do
  let p <- program
  let word := name.render
  let known (text : String) (t : Elementary) : Lower Op := do
    let op <- assignment l (<- textConstant text)
    setType l (.elementary t)
    return op
  let subjectName := p.subjectName subject
  match word with
  | "creationCode" | "runtimeCode" => known "None" .bytes
  | "interfaceId" =>
    match subject with
    | .contract c =>
      let ids := (p.entryPoints c).map fun f => Hash.functionId (p.functionFullName f)
      knownMember l (toString (ids.foldl (· ^^^ ·) 0)) (.bytesN 4)
    | .enum e => lacks (.target (.enum e)) "functions_entry_points"
    | t => lacks (.type t) "functions_entry_points"
  | "name" => known subjectName .string
  | _ => throw (.lowering s!"type({subjectName}).{word} is unknown")

def setMemberType (l left : Value) (name : Constant) : Lower Unit := do
  let p <- program
  let ownFunction := match left, place.contract with
    | .target (.builtin "this"), some c => (p.contract c).functions.values.find? (p.functionName · == name.render)
    | _, _ => none
  if let some f := ownFunction then
    setTyping l (.function f)
    return
  let t <- match left with
    | .target (.contract c) => pure (.one (.contract c))
    | .target (.enum e) => pure (.one (.enum e))
    | v => if v.isVariable || v.isBuiltin then typing v else pure .unknown
  match t with
  | .one (.enum e) => setType l (.enum e)
  | .one (.struct s) => for (n, m) in (p.struct s).members do if isWord name n then setTyping l (.ofOption (p.var m).type)
  | .one (.contract c) =>
    match (p.contract c).functions.values.find? fun f => isWord name (p.functionName f) with
    | some f => setTyping l (.function f)
    | none =>
      if let some v := (p.contract c).vars.values.find? fun v => isWord name (p.var v).name then
        setTyping l (.ofOption (p.var v).type)
  | _ => pure ()

def convertMember (i : Instr) (l left : Value) (name : Constant) : Lower Instr := do
  let p <- program
  let again (op : Op) : Instr := { i with op }
  let typed : Lower ValueTyping := if left.isContract then pure .unknown else typing left
  if isWord name "length" then
    match <- typed with
    | .one (.elementary _) | .one (.array _ _) =>
      let op <- length l left
      setPart l left
      return again op
    | _ => pure ()
  if isOneOf name ["balance", "code", "codehash"] then
    if let some _ := (<- typed).elementary? then
      let callee := name.render ++ "(address)"
      let results := (Builtin.results? callee).getD []
      let types <- results.mapM fun t => do return TypeItem.type (some (<- ofExcept (Ty.ofName t)))
      setTyping l (.several types)
      return again (.call { kind := .builtin (.builtinFunction callee), result := some l, arguments := [left] })
  if isWord name "codesize" then if let some _ := (<- typed).elementary? then return again (<- codeSize l left)
  if isWord name "selector" then
    match left with
    | .target (.error e) =>
      return again (<- knownMember l (toString (Hash.functionId ((p.error e).signature.getD ""))) (.bytesN 4))
    | .target (.event e) => return again (<- knownMember l (toString (Hash.eventId (p.eventFullName e))) (.bytesN 32))
    | left =>
      if let .function f := <- typing left then
        return again (<- knownMember l (toString (Hash.functionId (p.functionFullName f))) (.bytesN 4))
  if left.isTemporary then
    if let .one (.information subject) := <- typing left then return again (<- informationMember l subject name)
  setMemberType place l left name
  return i

/-! ## All operations -/

def setBuiltinResult (callee : Target) (r : Value) : Lower Unit := do
  let types : List Ty <- match callee with
    | .builtinFunction n =>
      if n == "type()" || n == "type(address)" then
        match c.arguments with
        | .target (.contract k) :: _ => pure [.information (.contract k)]
        | .target (.enum e) :: _ => pure [.information (.enum e)]
        | .type (.elementary t) :: _ => pure [.information (.elementary t)]
        | [] => throw .outOfRange
        | _ => throw (.broken "")
      else ((Builtin.results? n).getD []).mapM fun t => ofExcept (Ty.ofName t)
    | _ => pure []
  match types with
  | [] => pure ()
  | [t] => setType r t
  | ts => setTyping r (.several (ts.map fun t => .type (some t)))

def propagate (i : Instr) : Lower (List Instr) := do
  let some l := i.op.lvalue? | return [i]
  if !(<- typing l).isUnknown then return [i]
  match i.op with
  | .assign _ v =>
    setTyping l (<- typing v)
    return [i]
  | .binary _ op a _ =>
    if op.isTruth then setType l .bool else setTyping l (<- typing a)
    return [i]
  | .unary _ _ v =>
    setTyping l (<- typing v)
    return [i]
  | .conversion _ _ t =>
    setType l t
    return [i]
  | .index _ a _ =>
    match <- typing a with
    | .one (.mapping _ t) | .one (.array t _) => setType l t
    | _ => pure ()
    return [i]
  | .initArray _ vs =>
    let first <- need vs.head? .outOfRange
    match <- typing first with
    | .one t =>
      let n := toString vs.length
      let length : ArrayLength := { value := .int vs.length, unit := none, shown := n, written := n, reads := [] }
      setType l (.array t (some length))
    | _ => throw (.broken "")
    return [i]
  | .member _ left name => return [<- convertMember place i l left name]
  | .unpack _ t _ =>
    match <- typing t with
    | .unknown => lacks .absent "type"
    | .several _ => lacks (.list []) "type"
    | .one t =>
      let kind := (<- program).typeKindName t
      throw (.badType s!"'{kind}' object is not subscriptable")
    | .function _ => throw (.badType "'NoneType' object is not subscriptable")
  | .call c =>
    match c.kind with
    | .library (.target (.contract owner)) name _ =>
      match <- toLibrary? c owner name with
      | some op => return [{ i with op }]
      | none => return [i]
    | .highLevel d name _ => convertHighLevel place i c d name
    | .internal callee name contract =>
      let c <- callee.elim (convertInternal place c name contract) fun _ => pure c
      match c.kind with
      | .internal (some f) _ _ =>
        let c <- setResult c (singled ((<- program).resultTyping f))
        return [{ i with op := .call c }]
      | _ => return [i]
    | .dynamic _ (.function _ returns _ _) =>
      let t : ValueTyping := match returns with
        | [] => .unknown
        | [t] => .one t
        | ts => .several (ts.map fun t => .type (some t))
      let c <- setResult c t
      return [{ i with op := .call c }]
    | .lowLevel .. => throw (.broken "")
    | .builtin callee =>
      setBuiltinResult c callee l
      return [i]
    | .newArray t | .newContract t =>
      setType l t
      return [i]
    | .newElementary t =>
      setType l (.elementary t)
      return [i]
    | .newStruct s =>
      setType l (.struct s)
      return [i]
    | .send .. =>
      setType l .bool
      return [i]
    | _ => return [i]
  | _ => return [i]

end Lower

end ContractAudit
