import ContractAudit.Program.Builtin
import ContractAudit.Program.Contracts
import ContractAudit.Reader.State

/-! # Lookup of names and types

Variables are looked up in the contract that declares the code and functions in the contract that runs it; top level
declarations come last.
-/

namespace ContractAudit.Reader

inductive Context where
  | unit
  | contract (id : ContractId)
  | function (id : FunctionId)
  | struct (id : StructId)
  | variable_ (id : VariableId)
  | event (id : EventId)
  | error (id : ErrorId)
  | using_ (id : UsingId)

def lastOf? {α : Type} (key : String) (pairs : List (String × α)) : Option α := (pairs.reverse.find? (·.1 == key)).map (·.2)

def innerFunction? : Ty -> Option (List Ty)
  | .array t _ => innerFunction? t
  | .mapping _ v => innerFunction? v
  | .function params _ _ _ => some params
  | _ => none

def pointerName? (p : Program) (v : VariableId) : Option String := do
  let params <- innerFunction? (<- (p.var v).type)
  return (p.var v).name ++ Program.parenthesized (p.typeTexts params)

def findPointer? (p : Program) (name : String) (vs : List VariableId) : Option VariableId :=
  if name == "" then none
  else lastOf? name (vs.filterMap fun v => (pointerName? p v).map fun n => (n, v))

/-- By their full names, as seen in a contract with the given elements. -/
def inheritedElements (p : Program) (c : ContractId) (elements : Table String FunctionId)
    (declared : ContractId -> List FunctionId) : Result (Table String FunctionId) := do
  let step := fun (acc : Table String FunctionId × List ContractId) father =>
    let found := (declared father).filter fun f =>
      ((p.functionContract? f).all fun k => !acc.2.contains k) && (p.function f).language != .yul
    (acc.1.update (found.map fun f => (p.functionFullName f, f)), acc.2 ++ [father])
  let (inherited, _) := (p.contract c).inheritance.reverse.foldl step ([], [])
  inherited.values.foldlM (fun acc f =>
    (elements.find? (p.functionCanonicalName f)).elim (.error (.missing (p.functionCanonicalName f))) fun e =>
      .ok (acc.insert (p.functionFullName f) e)) []

end Reader

def Program.functionScope (p : Program) (f : FunctionId) : ScopeId :=
  match (p.function f).place with
  | .inContract _ d => (p.contract d).scope
  | .topLevel s => s

def Program.ownerScope (p : Program) : Owner -> ScopeId
  | .contract c => (p.contract c).scope
  | .topLevel s => s

namespace Reader

open Table

variable (p : Program) (s : State)

def Context.scope? : Context -> Option ScopeId
  | .unit | .using_ _ => none
  | .contract c => some (p.contract c).scope
  | .function f => some (p.functionScope f)
  | .struct s => some (p.ownerScope (p.struct s).owner)
  | .variable_ v =>
    match (p.var v).kind with
    | .topLevel s => some s
    | _ => none
  | .event e => some (p.ownerScope (p.event e).owner)
  | .error e => some (p.ownerScope (p.error e).owner)

variable (name : String) (number : Int)

def functionByNumber? (fs : List FunctionId) : Option FunctionId :=
  fs.find? fun f => (p.function f).id == some number && !(p.function f).shadowed

def contractByNumber? (cs : List ContractId) : Option ContractId :=
  cs.find? fun c => (p.contract c).id == number

def nearContract? : Context -> Option ContractId
  | .contract c => some c
  | .function f => (s.functionDrafts.getD f default).contract
  | .error e => (s.errorDrafts.getD e default).contract
  | _ => none

def nearFunctions (c : ContractId) : List FunctionId :=
  let d := s.contractDrafts.getD c default
  d.functions.ids ++ d.modifiers.ids

def byNumber? (ctx : Context) (declarer : Option ContractId) (number : Int) : Option Target :=
  let p := s.program
  let renamed := if let .function f := ctx then (s.functionDrafts.getD f default).byReference.find? number else none
  let state := declarer.bind fun c => (p.contract c).variablesById.find? number
  let near := (nearContract? s ctx).toList
  (renamed.map .var).or <| (state.map .var).or <|
    ((contractByNumber? p number near).map .contract).or <|
      (functionByNumber? p number (near.flatMap (nearFunctions s))).map .func

def inFunction? (f : FunctionId) : Option VariableId :=
  ((p.function f).vars.find? name).or (findPointer? p name (p.function f).vars.values)

def modifierByName? (modifiers : Table String FunctionId) : Option FunctionId :=
  (List.find? (fun m : String × FunctionId =>
    m.1.toList.contains '(' && .ofList (m.1.toList.takeWhile (· != '(')) == name) modifiers).map (·.2)

/-- The search ends at an error whose signature is not known yet. -/
def errorBySignature? (found : ErrorDecl -> Bool) : List ErrorId -> Option ErrorId
  | [] => none
  | e :: es =>
    if (p.error e).signature.isNone then none
    else if found (p.error e) then some e else errorBySignature? found es

def inContract? (contract declarer : ContractId) (viaSuper path : Bool) : Result (Option Target) := do
  let d := p.contract declarer
  let c := p.contract contract
  if let some v := d.vars.find? name then return some (.var v)
  if let some v := findPointer? p name d.vars.values then return some (.var v)
  let seen (all : List FunctionId) (declared : ContractId -> List FunctionId) : Result (Table String FunctionId) := do
    let fs <- if viaSuper then do
        let elements := ofList (all.map fun f => (p.functionCanonicalName f, f))
        pure (<- inheritedElements p declarer elements declared).values
      else pure (all.filter fun f => !(p.function f).shadowed)
    return ofList (fs.map fun f => (p.functionFullName f, f))
  let functions <- seen c.functions.values p.declaredFunctions
  if let some f := functions.find? name then return some (.func f)
  let modifiers <- seen c.modifiers.values p.declaredModifiers
  if let some f := modifiers.find? name then return some (.func f)
  if path then if let some f := modifierByName? name modifiers then return some (.func f)
  if let some t := c.valueTypes.find? name then return some (.valueType t)
  if let some s := c.structs.find? name then return some (.struct s)
  if let some e := c.events.find? name then return some (.event e)
  if let some e := c.enums.find? name then return some (.enum e)
  let matches_ (e : ErrorDecl) := e.signature == some name || e.fullName == some name
  if let some e := errorBySignature? p matches_ c.errors.values then return some (.error e)
  if let some e := lastOf? name (c.enums.values.map fun e => ((p.enum e).name, e)) then return some (.enum e)
  return none

/-- A name of an import may be missing. -/
def atTopLevel? (name : Option String) (scope : ScopeId) : Result (Option Target) := do
  let s := p.scope scope
  if let some n := name then
    if let some t := s.valueTypes.find? n then return some (.valueType t)
    if let some t := s.structs.find? n then return some (.struct t)
    if let some t := s.enums.find? n then return some (.enum t)
    if let some e := s.events.find? fun e => p.eventFullName e == n then return some (.event e)
  if let some i := s.imports.find? fun i => (p.import_ i).aliasName == name then
    if name.isNone then throw (.broken "")
    return some (.imported i)
  if let some n := name then
    if let some v := s.vars.find? n then return some (.var v)
    if let some e := errorBySignature? p (·.signature == some n) s.errors then return some (.error e)
  return none

def find (name : Option String) (ctx : Context) (number : Option Int) (viaSuper path : Bool) :
    Result Target := do
  let p := s.program
  let scopeId <- expect (ctx.scope? p) (.fatal "The context is not valid for find_variable")
  let scope := p.scope scopeId
  let name := name.map fun n => (scope.renames.find? n).getD n
  let (contract, declarer) := match ctx with
    | .contract c => (some c, some c)
    | .function f => (p.functionContract? f, p.functionDeclarer? f)
    | .error e => ((p.error e).owner.contract?, none)
    | _ => (none, none)
  if let .error _ := ctx then
    if let some c := contract then
      if let some v := (p.contract c).vars.values.find? fun v => some (p.var v).name == name then return .var v
  if let some n := number then if let some t := byNumber? s ctx declarer n then return t
  if let some n := name then
    if let .function f := ctx then if let some v := inFunction? p n f then return .var v
    if let (some c, some d) := (contract, declarer) then if let some t <- inContract? p n c d viaSuper path then return t
    let enums := scope.contracts.values.flatMap fun c => (p.contract c).enums
    if let some e := lastOf? n enums then return .enum e
    if let some c := scope.contracts.find? n then return .contract c
    if Builtin.vars.has n then return .builtin n
    if Builtin.isFunction n then return .builtinFunction n
  if let some t <- atTopLevel? p name scopeId then return t
  if let some n := number then
    if let some c := contractByNumber? p n scope.contracts.values then return .contract c
    if let some f := functionByNumber? p n scope.functions then return .func f
  let c <- expect contract (.lacks "NoneType" "source_mapping")
  let c := p.contract c
  let shown := name.getD "None"
  let where_ := c.source.detailed p.lineMark
  throw (.unknownVariable s!"Variable not found: {shown} (context {c.name} {where_})")

open Text

/-! ## Types in words -/

section

variable (c : Char) (s : String) (cs : List Char)

structure TypeEnv where
  functions : List FunctionId := []
  contracts : List ContractId := []
  nearStructs : List StructId := []
  allStructs : List StructId := []
  nearEnums : List EnumId := []
  allEnums : List EnumId := []
  renames : Table String String := []
  valueTypes : Table String AliasId := []
  scope : Option ScopeId := none

namespace TypeEnv

variable (p : Program)

def ofContracts (cs : List ContractId) (e : TypeEnv) : TypeEnv :=
  { e with
    contracts := cs
    allStructs := cs.flatMap (fun c => (p.contract c).structs.values) ++ e.allStructs
    allEnums := cs.flatMap (fun c => (p.contract c).enums.values) ++ e.allEnums }

def ofScope (i : ScopeId) : TypeEnv :=
  let s := p.scope i
  ofContracts p s.contracts.values {
    allStructs := s.structs.values, allEnums := s.enums.values
    renames := s.renames, valueTypes := s.valueTypes, scope := some i }

def ofUnit : TypeEnv :=
  ofContracts p p.contracts {
    nearStructs := p.structs, allStructs := p.structs, nearEnums := p.enums, allEnums := p.enums
    valueTypes := p.valueTypes }

def ofContract (c : ContractId) (i : ScopeId) : TypeEnv :=
  let s := p.scope i
  let c := p.contract c
  { ofScope p i with
    nearStructs := c.structs.values ++ s.structs.values
    nearEnums := c.enums.values ++ s.enums.values
    functions := c.functions.values ++ c.modifiers.values }

def ofContext (ctx : Context) : TypeEnv :=
  let topLevel (i : ScopeId) : TypeEnv :=
    { ofScope p i with nearStructs := (p.scope i).structs.values, functions := (p.scope i).functions }
  match ctx with
  | .unit => ofUnit p
  | .contract c => ofContract p c (p.contract c).scope
  | .function f =>
    match (p.function f).place with
    | .inContract c d => ofContract p c (p.contract d).scope
    | .topLevel i => { ofUnit p with renames := (p.scope i).renames, valueTypes := (p.scope i).valueTypes }
  | .using_ u => topLevel (p.using_ u).scope
  | ctx => (ctx.scope? p).elim {} topLevel

end TypeEnv

def isWordChar : Bool := c.isAlphanum

def isParameterChar : Bool := isWordChar c || " ()[].,".toList.contains c

def isResultChar : Bool := isWordChar c || "() .,".toList.contains c

def skip? : Option (List Char) := afterPrefix? s.toList cs

def skipOptional : List Char := (skip? s cs).getD cs

def beforeLastParen? : Option (List Char × List Char) :=
  let back := cs.reverse
  let after := back.takeWhile (· != ')')
  match back.drop after.length with
  | [] => none
  | _ :: front => some (front.reverse, after.reverse)

def functionAt? : Option ((String × String) × List Char) := do
  let cs <- skip? "function (" cs
  let params := cs.takeWhile (· != ')')
  if !params.all isParameterChar then none
  let rest <- skip? ")" (cs.drop params.length)
  let rest := skipOptional " payable" rest
  let rest := ([" external", " internal", " pure", " view"].findSome? fun m => skip? m rest).getD rest
  let (results, rest) := (skip? " returns (" rest).elim ([], rest) fun more =>
    let run := more.takeWhile isResultChar
    (beforeLastParen? run).elim ([], rest) fun (inside, after) => (inside, after ++ more.drop run.length)
  some ((.ofList params, .ofList results), rest)

/-- `fuel` is the length of the text. -/
def allMatches {α : Type} (read? : List Char -> Option (α × List Char)) : Nat -> List Char -> List α
  | 0, _ => []
  | fuel + 1, cs =>
    match read? cs with
    | some (a, rest) => a :: allMatches read? fuel rest
    | none =>
      match cs with
      | [] => []
      | _ :: rest => allMatches read? fuel rest

def isKeyChar : Bool := isWordChar c || c == '.'

/-- A mapping to what stands between the two texts and has letters, digits or the further signs. -/
def mappingAt? (front back signs : String) : Option ((String × String) × List Char) := do
  let cs <- skip? "mapping(" cs
  let key := cs.takeWhile isKeyChar
  let cs <- skip? (" => " ++ front) (cs.drop key.length)
  let value := cs.takeWhile fun c => isKeyChar c || signs.toList.contains c
  let rest <- skip? (back ++ ")") (cs.drop value.length)
  some ((.ofList key, front ++ .ofList value ++ back), rest)

def arrayOf (t : Ty) (depth : Nat) : Ty :=
  .array t (some { value := .int depth, unit := none, shown := toString depth
                   written := toString depth, reads := [] })

def without (start s : String) : String := (after? start s).getD s

def dropArrayMarks : Nat -> String -> String × Nat
  | 0, s => (s, 0)
  | fuel + 1, s =>
    if endsWith s "[]" then
      let (t, n) := dropArrayMarks fuel (dropLast 2 s)
      (t, n + 1)
    else (s, 0)

def declaredType? (p : Program) (e : TypeEnv) (name : String) : Option Ty :=
  let contractName := without "library " (without "contract " name)
  let enumName := (after? "enum " name).getD (if startsWith name "type(enum" then dropLast 1 (drop 10 name) else name)
  let structName := (after? "struct " name).elim name fun n => (splitOn n " ").headD ""
  let struct (of : Struct -> String) (ss : List StructId) (n : String) : Option Ty :=
    (ss.find? fun s => of (p.struct s) == n).map .struct
  let enum (of : EnumDecl -> String) (es : List EnumId) (n : String) : Option Ty :=
    (es.find? fun e => of (p.enum e) == n).map .enum
  let (base, depth) := dropArrayMarks structName.length structName
  ((e.contracts.find? fun c => (p.contract c).name == contractName).map .contract).or <|
    (struct (·.name) e.nearStructs name).or <| (enum (·.name) e.nearEnums name).or <|
    (enum (·.canonicalName) e.allEnums enumName).or <| (enum (·.name) e.allEnums enumName).or <|
    (struct (·.canonicalName) e.allStructs structName).or <| (struct (·.name) e.allStructs structName).or <|
    (struct (·.canonicalName) e.allStructs base).map (arrayOf · depth)

def elementaryType? (name : String) : Option Ty :=
  let first := (splitOn name " ").headD ""
  let first := String.ofList (first.toList.takeWhile (· != '['))
  (Elementary.ofName? first).map fun t =>
    let depth := count name "["
    if depth == 0 then .elementary t else arrayOf (.elementary t) depth

def commaParts : List String := (splitOn s ",").filter (· != "")

def typeOfWords (e : TypeEnv) : Nat -> String -> Load Ty
  | 0, _ => throw .depth
  | fuel + 1, name => do
    if let some t := elementaryType? name then return t
    let p <- .program
    if let some t := declaredType? p e name then return t
    if e.functions.any fun f => p.functionName f == name then throw (.broken "")
    if startsWith name "function " then
      match allMatches functionAt? (name.length + 1) name.toList with
      | [(params, results)] =>
        let params <- (commaParts params).mapM (typeOfWords e fuel)
        let results <- (commaParts results).mapM (typeOfWords e fuel)
        let ids (ts : List Ty) : Load (List VariableId) :=
          ts.mapM fun t => .newVariable { kind := .functionTypeParameter, type := some t }
        return .function params results (<- ids params) (<- ids results)
      | _ => throw (.broken "")
    if startsWith name "mapping(" then
      let found :=
        let read? (cs : List Char) : Option ((String × String) × List Char) :=
          if count name "mapping(" == 1 then mappingAt? cs "" "" " []" else mappingAt? cs "mapping(" ")" "=> []"
        allMatches read? (name.length + 1) name.toList
      match found with
      | [(key, value)] =>
        let k <- typeOfWords e fuel key
        let v <- typeOfWords e fuel value
        return .mapping k v
      | _ => throw (.broken "")
    throw (.parsing s!"Type not found {name}")

def namedType (e : TypeEnv) (name : Json) : Load Ty := do
  match name with
  | .str name =>
    let name := (e.renames.find? name).getD name
    match e.valueTypes.find? name with
    | some a => return .valueType a
    | none => typeOfWords e (name.length + 2) name
  | j => throw (.lacks j.kindName "split")

end

end Reader

end ContractAudit
