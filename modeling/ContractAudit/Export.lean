import ContractAudit.Analysis.Summary
import ContractAudit.Reader.Contracts

/-! # Exports

The text of the interface of a contract, and the sources of a program in one file or in a file for each contract.
-/

namespace ContractAudit

open Text

namespace Export

variable (o : InterfaceOptions) (p : Program) (t : Option Ty) (s : StructId) (v : VariableId) (f : FunctionId)

structure InterfaceOptions where
  unrollStructs : Bool := true
  events : Bool := true
  errors : Bool := true
  enums : Bool := true
  structs : Bool := true

def flatType : String := replace (replace (p.typeInSignature t) "(" "") ")" ""

def isDynamic (p : Program) : Option Ty -> Result Bool
  | some (.elementary t) => .ok t.isDynamic
  | some (.array _ length) => .ok length.isNone
  | some (.mapping _ _) => .ok true
  | some (.valueType v) => .ok (p.valueType v).underlying.isDynamic
  | some (.information _) => .error (.unhandled "")
  | some _ => .ok false
  | none => .error (.lacks "NoneType" "is_dynamic")

def declaredName? : Ty -> Option String
  | .contract c => some (p.contract c).name
  | .struct s => some (p.struct s).name
  | .enum e => some (p.enum e).name
  | _ => none

/-- Contracts are addresses, other declared types go by their names. -/
def dynamicText (p : Program) : Ty -> String
  | .elementary t => t.name
  | .array (.contract _) _ => "address[]"
  | .array (.enum e) length => p.typeInSignature (some (.array (.enum e) length))
  | .array (.struct s) _ => (p.struct s).name ++ "[]"
  | .array base _ => p.typeText base ++ "[]"
  | .mapping key value =>
    let key := match key with
      | .contract _ => "address"
      | t => p.typeText t
    let value := match value with
      | .mapping k v => dynamicText p (.mapping k v)
      | .contract _ => "address"
      | t => (declaredName? p t).getD (p.typeText t)
    "mapping(" ++ key ++ " => " ++ value ++ ")"
  | _ => ""

def memberText : Result String := do
  if <- isDynamic p t then return t.elim "" (dynamicText p)
  match t with
  | some (.struct s) => return (p.struct s).name
  | some (.contract _) | some (.enum _) => return p.typeInSignature t
  | some (.valueType v) => return (p.valueType v).underlying.name
  | t => return p.typeText? t

def structText : Result String := do
  let members <- (p.structMembers s).mapM fun v => do
    return "        " ++ (<- memberText p (p.var v).type) ++ " " ++ (p.var v).name ++ ";\n"
  return "    struct " ++ (p.struct s).name ++ " \x7b\n" ++ .join members ++ "    \x7d\n"

def contractStruct? : Option Ty -> Option StructId
  | some (.struct s) => if (p.struct s).owner.isTopLevel then none else some s
  | _ => none

def addStruct (structs : List StructId) (s : StructId) : List StructId :=
  if structs.any (p.sameStruct s) then structs else structs ++ [s]

def underMappings : Ty -> Ty
  | .mapping _ v => underMappings v
  | t => t

def usedStruct? : Option StructId :=
  let t := match t with
    | some (.array t _) => some t
    | t => t
  if let some (.struct s) := t.map underMappings then some s else none

/-- Followed by those that their members bring in. `fuel` bounds how many are looked at. -/
def withMembers (p : Program) : Nat -> List StructId -> List StructId -> List StructId
  | 0, done, todo => done ++ todo
  | _, done, [] => done
  | fuel + 1, done, s :: todo =>
    let known := done ++ s :: todo
    let all := ((p.structMembers s).filterMap fun v => contractStruct? p (p.var v).type).foldl (addStruct p) known
    withMembers p fuel (done ++ [s]) (all.drop (done.length + 1))

def interfaceStructs (c : ContractId) : List StructId :=
  let own := (p.contract c).structs.values ++ p.structs
  let bound := ((p.contract c).usingFor.filterMap fun (t, _) => contractStruct? p t).foldl (addStruct p) own
  let used := (p.entryPoints c).flatMap fun f =>
    ((p.function f).parameters ++ (p.function f).returns).filterMap fun v => usedStruct? (p.var v).type
  let start := used.foldl (addStruct p) bound
  withMembers p (start.length + p.structTable.size) [] start

def hasMapping : Bool := (p.structMembers s).any fun v => (p.var v).type.any Ty.isMapping

def isUnspeakable : Bool := if let some (.struct s) := t then hasMapping p s else false

def keyTypeText : SignatureType -> Result String
  | .type t => .ok (flatType p t)
  | .tuple _ => .error (.badType "unhashable type: 'list'")

def underArrays : Ty -> Ty
  | .array t _ => underArrays t
  | t => t

def getterResult? : Result (Option String) := do
  match t.map fun t => underArrays (underMappings t) with
  | some (.struct s) => return if hasMapping p s then none else some ((p.struct s).name ++ " memory")
  | some (.contract _) => return some "address"
  | some (.enum e) => return some (p.enum e).name
  | some (.valueType v) =>
    let t := (p.valueType v).underlying
    return some (if t.isDynamic then t.name ++ " memory" else t.name)
  | some t => return some (if <- isDynamic p (some t) then p.typeText t ++ " memory" else p.typeText t)
  | none => return some "None"

def getter? : Result (Option String) := do
  let x := p.var v
  if isUnspeakable p x.type then return none
  let shown (keys results : List String) : Option String := some
    (x.name ++ "(" ++ ",".intercalate keys ++ ") external returns (" ++ ", ".intercalate results ++ ")")
  if o.unrollStructs then
    let keys <- x.type.elim (pure []) fun t => (p.keyTypes t).mapM (keyTypeText p)
    return shown keys ((p.resultTypes (p.typeBound x.type + 1) false x.type).map (flatType p))
  let keys := (p.getterParameters v).map fun k => if k == "bytes" || k == "string" then k ++ " memory" else k
  return (<- getterResult? p x.type).bind fun r => shown keys [r]

def passedText : Result String := do
  let x := p.var v
  let place := " " ++ x.location.getD "None"
  if o.unrollStructs then return flatType p x.type
  if <- isDynamic p x.type then return x.type.elim "" (dynamicText p · ++ place)
  match x.type with
  | some (.array (.elementary _) _) | some (.array (.contract _) _) | some (.array (.struct _) _)
  | some (.array (.enum _) _) => return flatType p x.type ++ place
  | some (.struct s) => return (p.struct s).name ++ " memory"
  | some (.enum e) => return (p.enum e).name
  | some (.contract _) => return "address"
  | some (.valueType v) => return (p.valueType v).underlying.name
  | t => return p.typeText? t

/-- Empty if a result is a structure with a mapping. -/
def functionHead : Result String := do
  let x := p.function f
  if x.returns.any fun v => isUnspeakable p (p.var v).type then return ""
  let returns <- x.returns.mapM (passedText o p)
  let parameters <- x.parameters.mapM (passedText o p)
  let word (b : Bool) (s : String) : String := if b then s else ""
  return p.functionName f ++ Program.parenthesized parameters ++ " external" ++ word x.payable " payable" ++
    word x.pure " pure" ++ word (x.view && !x.pure) " view" ++
    (if returns.isEmpty then "" else " returns " ++ Program.parenthesized returns)

def errorParameter : String :=
  let t := (p.var v).type
  if o.unrollStructs then flatType p t
  else match t with
    | some (.struct s) => (p.struct s).name
    | some (.enum e) => (p.enum e).name
    | t => p.typeText? t

def isListed : Bool :=
  let x := p.function f
  x.kind != .constructor && x.kind != .fallback && x.kind != .receive && x.implemented == some true

def interface (o : InterfaceOptions) (p : Program) (c : ContractId) : Result String := do
  let k := p.contract c
  let only (b : Bool) (lines : List String) : List String := if b then lines else []
  let events := k.events.values.map fun e =>
    "    event " ++ (p.event e).name ++ "(" ++ ", ".intercalate ((p.event e).parameters.map p.variableTypeText) ++ ");\n"
  let errors := k.errors.values.map fun e =>
    "    error " ++ (p.error e).name ++ "(" ++ ", ".intercalate ((p.error e).parameters.map (errorParameter o p)) ++ ");\n"
  let enums := k.enums.values.map fun e =>
    "    enum " ++ (p.enum e).name ++ " \x7b " ++ ", ".intercalate (p.enum e).values ++ " \x7d\n"
  let structs <- if o.structs then (interfaceStructs p c).mapM (structText p) else pure []
  let getters <- ((p.stateVariables c).filter fun v => (p.var v).visibility == some "public").filterMapM (getter? o p)
  let functions <- ((p.entryPoints c).filter (isListed p)).mapM (functionHead o p)
  return .join (["interface I" ++ k.name ++ " \x7b\n"] ++ only o.events events ++ only o.errors errors ++
    only o.enums enums ++ structs ++ (getters ++ functions).map ("    function " ++ · ++ ";\n") ++ ["\x7d\n\n"])

/-! ## Flattening -/

open Ir

variable (o : FlatteningOptions) (a : Analysis) (p : Program) (c : ContractId) (compilerVersion : String)

structure FlatteningOptions where
  externalToPublic : Bool := false
  removeAssert : Bool := false
  libraryToInternal : Bool := false
  privateToInternal : Bool := false
  version : Option String := none

inductive Strategy where
  | oneFile | mostDerived | localImport
  deriving DecidableEq

def Strategy.named : String -> Result Strategy
  | "OneFile" => .ok .oneFile
  | "MostDerived" => .ok .mostDerived
  | "LocalImport" => .ok .localImport
  | name => .error (.missing name)

structure Edit where
  start : Nat
  length : Nat
  text : String

namespace Edit

/-- The text after an edit. Places are counted from `origin`. -/
def apply (origin : Nat) (text : String) (e : Edit) : String :=
  let at_ := e.start - origin
  take at_ text ++ e.text ++ drop (at_ + e.length) text

def applyAll (edits : List Edit) (origin : Nat) (text : String) : String :=
  (edits.mergeSort fun a b => decide (b.start ≤ a.start)).foldl (apply origin) text

end Edit

inductive Keyword where
  | external | calldata | private_

namespace Keyword

def old : Keyword -> String
  | external => "external"
  | calldata => "calldata"
  | private_ => "private"

def new : Keyword -> String
  | external => "public"
  | calldata => "memory"
  | private_ => "internal"

/-- An attribute may also stand at the end, after a blank or a parenthesis. -/
def isApart (w : Keyword) (before : Char) (rest : List Char) : Bool :=
  let isEnd := rest.isEmpty || rest == ['\n']
  if w matches external then (isBlank before && (rest.head?.any isBlank || isEnd)) || (before == ')' && isEnd)
  else before == ' ' && rest.head? == some ' '

/-- The first place of a word in a text that begins at a place. -/
def placeFrom? (w : Keyword) : Nat -> List Char -> Option Nat
  | _, [] => none
  | i, c :: cs =>
    if (afterPrefix? w.old.toList cs).any (w.isApart c) then some (i + 1) else w.placeFrom? (i + 1) cs

end Keyword

/-- The part of a file in which a word of a declaration is looked for. -/
structure Search where
  word : Keyword
  name : String
  start : Nat
  stop : Nat

namespace Search

variable (content : String) (q : Search)

def place? : Option Nat := q.word.placeFrom? q.start (slice q.start q.stop content).toList

def edit : Result Edit :=
  let missing (word : String) : Result Edit :=
    .error (.analysis s!"{word} keyword not found {q.name} {slice q.start q.stop content}")
  match q.place? content, q.word with
  | none, .external => missing "External"
  | none, .private_ => missing "private"
  | place, w => .ok ⟨place.getD q.start, w.old.length, w.new⟩

end Search

variable (content : String) (head : String)

def searchIn (w : Keyword) (v : VariableId) : Result Search :=
  .ok ⟨w, (p.var v).name, (p.var v).source.start, (p.var v).source.stop⟩

/-- Parameters move from the data of the call to memory. -/
def publicSearches (f : FunctionId) : List (Result Search) :=
  let x := p.function f
  let part (s : Option Source) : Result Source := expect s (.lacks "NoneType" "start")
  (do return ⟨.external, p.functionName f, (<- part x.parametersSource).stop, (<- part x.returnsSource).start⟩) ::
    (x.parameters.filter fun v => (p.var v).location == some "calldata").map (searchIn p .calldata)

def searchesOf : List (Result Search) :=
  let external := (p.declaredFunctions c).filter fun f =>
    !p.isFallback f && !p.isInitial f && (p.function f).visibility == some "external"
  (if o.externalToPublic && !(p.contract c).isInterface then external.flatMap (publicSearches p) else []) ++
    (if o.libraryToInternal && (p.contract c).isLibrary && (p.declaredFunctions c).any p.isPublic then
      [.error (.badType "'Source' object is not subscriptable")] else []) ++
    if o.privateToInternal then
      ((p.declaredVariables c).filter fun v => (p.var v).visibility == some "private").map (searchIn p .private_)
    else []

def editsOf : Result (List Edit) := do
  let edits <- (searchesOf o a.program c).mapM fun q => do (<- q).edit content
  let removed := if !o.removeAssert then [] else (a.program.declaredCode c).flatMap fun f => (a.nodeIds f).flatMap fun n =>
    ((a.instrs f n).filter (Analysis.builtinCallee? ·.op == some "assert(bool)")).map fun _ =>
      (⟨((a.flow f).node n).source.start, 0, " // "⟩ : Edit)
  return edits ++ removed

def contractText : Result String := do
  let s := (a.program.contract c).source
  let content <- a.program.fileText s.file
  let edits <- editsOf o a c content
  return Edit.applyAll edits s.start (slice s.start s.stop content)

def outerDeclarations : List Target :=
  p.structs.map .struct ++ p.enums.map .enum ++ p.events.map .event ++ p.errors.map .error ++ p.vars.map .var ++
    p.functions.map .func

/-- Sets the text of a declaration. The same declaration has one text, at its first place. -/
def setText (p : Program) (t : Target) (text : String) : List (Target × String) -> List (Target × String)
  | [] => [(t, text)]
  | (u, old) :: rest => if p.sameTarget u t then (u, text) :: rest else (u, old) :: setText p t text rest

structure Sources where
  contracts : Table ContractId String
  outer : List (Target × String)

def sourcesOf : Result Sources := do
  let p := a.program
  let contracts <- p.contracts.mapM fun c => do return (c, <- contractText o a c)
  let outer <- (outerDeclarations p).foldlM (fun texts t => do
    return setText p t (<- p.textOf ((p.targetSource? t).getD {})) texts) []
  return { contracts, outer }

def Sources.contract (s : Sources) (c : ContractId) : String := (s.contracts.find? c).getD ""

def Sources.outerText (s : Sources) (p : Program) (t : Target) : String :=
  ((s.outer.find? (p.sameTarget ·.1 t)).map (·.2)).getD ""

def directives (p : Program) : String :=
  let version := o.version.elim compilerVersion fun v => if v == "" then compilerVersion else v
  let encoder := p.pragmaTable.any fun d => d.literals.any fun l => contains l "ABIEncoderV2"
  s!"pragma solidity {version};\n" ++ if encoder then "pragma experimental ABIEncoderV2;\n" else ""

abbrev File := String × String

def oneFile (p : Program) (s : Sources) : File :=
  let part (text : String) : String := "\n" ++ text ++ "\n"
  let contracts := (Reader.inOrder p [] p.contracts).map fun c => part (s.contract c)
  ("export.sol", head ++ .join (s.outer.map (part ·.2)) ++ .join contracts)

structure Uses where
  contracts : List ContractId := []
  outer : List Target := []

namespace Uses

def append (x y : Uses) : Uses := ⟨x.contracts ++ y.contracts, x.outer ++ y.outer⟩

def join (xs : List Uses) : Uses := ⟨xs.flatMap (·.contracts), xs.flatMap (·.outer)⟩

def ofOwner (target : Target) : Owner -> Uses
  | .contract c => { contracts := [c] }
  | .topLevel _ => { outer := [target] }

def ofType (p : Program) : Ty -> Uses
  | .contract c => { contracts := [c] }
  | .struct s => ofOwner (.struct s) (p.struct s).owner
  | .enum e => ofOwner (.enum e) (p.enum e).owner
  | .mapping k v => append (ofType p k) (ofType p v)
  | .array t _ => ofType p t
  | _ => {}

def ofVariable (v : VariableId) : Uses := (p.var v).type.elim {} (ofType p)

def isOuter : Target -> Bool
  | .var v => ((p.var v).kind matches .topLevel _)
  | .func f => ((p.function f).place matches .topLevel _)
  | .struct s => (p.struct s).owner.isTopLevel
  | .enum e => (p.enum e).owner.isTopLevel
  | .event e => (p.event e).owner.isTopLevel
  | .error e => (p.error e).owner.isTopLevel
  | _ => false

def ofOp (p : Program) (op : Op) : Uses :=
  let outer (ts : List Target) : Uses := { outer := ts.filter (isOuter p) }
  let read := outer (op.reads.filterMap fun
    | .target t => some t
    | _ => none)
  match op with
  | .conversion _ _ t => append (ofType p t) read
  | .call c =>
    match c.kind with
    | .newContract (.contract d) => append { contracts := [d] } read
    | .internal (some g) _ _ => append read (outer [.func g])
    | .builtin (.customRevert e) => append read (outer [.error e])
    | _ => read
  | _ => read

end Uses

def usesOf : Uses :=
  let p := a.program
  let k := p.contract c
  let called := (a.contractOutward c).filterMap fun (_, _, call) => match call.owner with
    | .target (.contract d) => if d == c then none else some d
    | _ => none
  let libraries := k.usingFor.flatMap fun (_, items) => items.filterMap fun
    | .library (.contract d) => some d
    | _ => none
  let declared := p.declaredFunctions c
  let vars := p.stateVariables c ++ declared.flatMap fun f => (p.function f).vars.values
  let members := k.structs.values.flatMap fun s => (p.struct s).members.values
  .join ([{ contracts := k.inheritance ++ called ++ libraries }] ++
    (vars ++ members).map (.ofVariable p) ++
    declared.flatMap fun f => (a.operationsOf f).map (.ofOp p ·.instr.op))

/-- Of contracts with one name, the first that is met counts. -/
def closure (p : Program) (uses : ContractId -> Uses) : Nat -> List ContractId -> Uses -> Uses
  | 0, _, met => met
  | _, [], met => met
  | fuel + 1, c :: todo, met =>
    if met.contracts.any fun d => (p.contract d).name == (p.contract c).name then closure p uses fuel todo met
    else
      let u := uses c
      let outer := u.outer.foldl (fun ts t => if ts.any (p.sameTarget t) then ts else ts ++ [t]) met.outer
      closure p uses fuel (u.contracts ++ todo) ⟨met.contracts ++ [c], outer⟩

def usedBy : Uses :=
  let bound := a.program.contracts.foldl (fun k d => k + (usesOf a d).contracts.length + 1) 2
  closure a.program (usesOf a) bound [c] {}

def contractFile (a : Analysis) (s : Sources) (c : ContractId) : File :=
  let u := usedBy a c
  ((a.program.contract c).name, head ++ .join (u.outer.map (s.outerText a.program · ++ "\n")) ++
    .join (u.contracts.map (s.contract · ++ "\n")))

def importingFile (a : Analysis) (s : Sources) (c : ContractId) : File :=
  let name (d : ContractId) : String := (a.program.contract d).name
  let imports := ((usedBy a c).contracts.filter (· != c)).map fun d => s!"import './{name d}.sol';\n"
  (name c ++ ".sol", head ++ .join imports ++ "\n" ++ s.contract c ++ "\n")

def flatten (strategy : Strategy) (a : Analysis) : Result (List File) := do
  let s <- sourcesOf o a
  let head := directives o compilerVersion a.program
  match strategy with
  | .oneFile => return [oneFile head a.program s]
  | .mostDerived => return a.program.mostDerived.map (contractFile head a s)
  | .localImport => return a.program.contracts.map (importingFile head a s)

def flattenContract (a : Analysis) (c : ContractId) : Result File := do
  return contractFile (directives o compilerVersion a.program) a (<- sourcesOf o a) c

end Export

end ContractAudit
