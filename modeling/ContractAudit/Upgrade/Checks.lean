import ContractAudit.Analysis.Dependency
import ContractAudit.Storage.Slots
import ContractAudit.Upgrade.Change

/-! # Checks for contracts that are replaced by later versions

A check looks at a contract alone, with the proxy that passes calls on to it, or with its next version.
-/

namespace ContractAudit.Upgrade

open Ir Text Analysis Number

section

variable (a : Analysis) (c : ContractId) (f : FunctionId) (n : NodeId)

inductive Delegate where
  | value (v : Value)
  | slot (name number : String)

def Delegate.ofSlot? (number : String) (name : Option String) : Option Delegate :=
  if number.length == 66 && startsWith number "0x" then some (.slot (name.getD number) number) else none

def Delegate.render : Delegate -> String
  | value (.target t) => a.program.targetCanonicalName t
  | value v => a.program.valueText a.store v
  | slot name _ => name

def partAt (parts : List String) (i : Nat) : Result String := expect parts[i]? .outOfRange

def variableAt? (slot : Int) : Result (Option Delegate) :=
  (a.program.contract c).variablesOrdered.foldlM (fun found v => do
    if found.isSome then return found
    let (at_, _, _) <- Storage.variablePlace a c v
    return if (at_ : Int) == slot then some (.value (.var v)) else none) none

def assemblyText? : Option String :=
  if (a.flow f).kind n == .assembly then if let some (.str s) := ((a.flow f).node n).code then some s else none
  else none

def slotReadInto? (name code : String) : Option String :=
  ((splitOn code "\n").find? fun line => contains (replace line " " "") (name ++ ":=sload(")).bind fun line =>
    if let _ :: rest :: _ := splitOn line "sload(" then some ((splitOn rest ")").headD "") else none

def delegateNamed? (name : String) : Result (Option Delegate) := do
  let p := a.program
  let x := p.function f
  let candidates := p.stateVariables c ++ localVariables p f ++ x.parameters ++ x.returns
  match candidates.find? fun v => (p.var v).name == name with
  | some v => return some (.value (.var v))
  | none =>
    if !x.containsAssembly then return none
    let places := (a.withCallees f).flatMap fun g => (a.nodeIds g).map fun n => (g, n)
    let some slot := places.findSome? fun (g, n) => (assemblyText? a g n).bind (slotReadInto? name) | return none
    if startsWith slot "0x" then return Delegate.ofSlot? slot (some name)
    variableAt? a c (<- decimal slot)

def constantNamed? (name : String) : Option VariableId :=
  let p := a.program
  (a.variablesWritten f ++ a.variablesRead f).findSome? fun
    | .target (.var v) =>
      if (p.var v).name != name then none
      else
        let w := match (p.var v).expr with
          | some (.name _ (.var w) _ _) => if p.isLocalVariable v && p.isStateVariable w then w else v
          | _ => v
        if p.isStateVariable w && (p.var w).isConstant then some w else none
    | _ => none

def delegateInWords? (code : String) : Result (Option Delegate) := do
  let line := ((splitOn code "\n").find? (contains · "delegatecall")).getD ""
  let arguments := splitOn (<- partAt (splitOn line "call(") 1) ", "
  let second <- partAt arguments 1
  let destination <- if endsWith second ")" && !startsWith second "sload(" then partAt arguments 2 else pure second
  let byName (name : String) : Result (Option Delegate) :=
    let name := if contains name "_fallback_asm" || contains name "_slot" then (splitOn name "_").headD "" else name
    delegateNamed? a c f name
  if startsWith destination "sload(" then
    let slot <- partAt (splitOn (replace destination ")" "(") "(") 1
    if startsWith slot "0x" then return Delegate.ofSlot? slot none
    if slot != "" && slot.toList.all isDecimal then return <- variableAt? a c (<- decimal slot)
    (constantNamed? a f slot).elim (byName slot) fun v => return some (.value (.var v))
  else byName destination

def delegateInExpr? (p : Program) (e : Expr) : Option Delegate :=
  let e := match e with
    | .assign _ _ _ r _ => r
    | e => e
  match e with
  | .call _ called (_ :: destination :: _) _ _ _ _ _ _ =>
    if !contains (p.exprText called) "delegatecall" then none
    else
      let destination := match destination with
        | .call _ inner (slot :: _) _ _ _ _ _ _ => if contains (p.exprText inner) "sload" then slot else destination
        | e => e
      match destination with
      | .name _ t _ _ => some (.value (.target t))
      | .literal _ (.text s) _ _ => Delegate.ofSlot? s none
      | _ => none
  | _ => none

def delegateInCode? : Option Delegate :=
  (a.instrs f n).foldl (fun found i => match i.op with
    | .call { kind := .lowLevel d name, .. } => if name.render == "delegatecall" then some (.value d) else found
    | _ => found) none

/-- The operations of a node count more than the words of the block before it. -/
def firstDelegate? (known : Option Delegate) :
    List Place -> Result (Option Delegate)
  | [] => .ok known
  | (f, n) :: rest => do
    let found := (delegateInCode? a f n).or known
    if found.isSome then return found
    match assemblyText? a f n with
    | some code =>
      let found <- if contains code "delegatecall" then delegateInWords? a c f code else pure none
      firstDelegate? found rest
    | none =>
      let found := if (a.flow f).kind n == .expression then
        ((a.flow f).node n).expr.bind (delegateInExpr? a.program) else none
      if found.isSome then return found
      firstDelegate? none rest

/-- A local variable stands for the state variable that it depends on. -/
def delegateOf? : Result (Option Delegate) := do
  let p := a.program
  let some f := (p.functionsOf c).find? p.isFallback | return none
  if !a.isProxy c then return none
  let places := (a.withCallees f).flatMap fun g => (a.nodeIds g).map fun n => (g, n)
  match <- firstDelegate? a c none places with
  | some (.value (.target (.var v))) =>
    if !p.isLocalVariable v then return some (.value (.var v))
    let known <- a.dependenciesIn (.contract c) false
    let sources := known.of (.target (.var v))
    let state := sources.findSome? fun
      | .target (.var w) => if p.isStateVariable w then some w else none
      | _ => none
    return some (.value (.var (state.getD v)))
  | found => return found

def writtenSlot (name number : String) : Result Storage.Slot := do
  return ⟨name, "address", (<- hexadecimal number).toNat, 160, 0⟩

def delegateSlot? : Result (Option Storage.Slot) := do
  let p := a.program
  match <- delegateOf? a c with
  | some (.slot name number) => return some (<- writtenSlot name number)
  | some (.value (.target (.var v))) =>
    if !p.isStateVariable v then return none
    if p.isStored v then return <- Storage.slotOf? a c v {}
    let x := p.var v
    if !x.isConstant || p.variableTypeText v != "bytes32" then return none
    match x.expr with
    | some (.literal _ (.text s) _ _) => return some (<- writtenSlot x.name s)
    | some e => throw (.lacks e.kindName "value")
    | none => throw (.lacks "NoneType" "value")
  | _ => return none

end

/-! ## Checks for contracts that are replaced by later versions -/

section

variable (cs : List Check) (s : Seat)

inductive Word where
  | text (s : String)
  | thing (p : Program) (s : Subject)

namespace Word

instance : Coe String Word := ⟨text⟩

def describe : Word -> Result String
  | text s => .ok s
  | thing p s => Phrase.describe p (.subject s)

def element? : Word -> Result (Option Element)
  | text _ => .ok none
  | thing p s => (s.element p []).map some

def contract : Word := thing s.program (.declared (.contract s.contract))

def var (v : VariableId) : Word := thing s.program (.declared (.var v))

def func (f : FunctionId) : Word := thing s.program (.declared (.func f))

end Word

structure Notice where
  check : String
  description : String
  elements : List Element

def Notice.ofWords (check : String) (words : List Word) : Result Notice := do
  return { check, description := String.join (<- words.mapM Word.describe)
           elements := (<- words.mapM Word.element?).filterMap id }

inductive Rule where
  | alone (find : Seat -> Result (List (List Word)))
  | behindProxy (find : Seat -> Seat -> Result (List (List Word)))
  | replaced (find : Seat -> Seat -> Result (List (List Word)))

structure Check where
  name : String
  rule : Rule

/-! ## Variables -/

def wereConstant : Check := .mk "were-constant" <| .replaced fun old new => .ok ((lostConstants old new).map fun (v, w) =>
    [.var old v, " was constant, but ", .var new w, "is not.\n"])

def becameConstant : Check := .mk "became-constant" <| .replaced fun old new => .ok ((newConstants old new).map fun (v, w) =>
    [.var old v, " was not constant but ", .var new w, " is.\n"])

def missingVariable : Check := .mk "missing-variables" <| .replaced fun old new => .ok ((missingVariables old new).map fun v =>
    ["Variable missing in ", .contract new, ": ", .var old v, "\n"])

def orderWords (one other : Seat) : List (List Word) :=
  (misplacedVariables one other).map fun (v, w) =>
    ["Different variables between ", .contract one, " and ", .contract other, "\n", "\t ", .var one v, "\n",
      "\t ", .var other w, "\n"]

def proxyOrder : Check := .mk "order-vars-proxy" <| .behindProxy fun s proxy => .ok (orderWords s proxy)

def versionOrder : Check := .mk "order-vars-contracts" <| .replaced fun old new => .ok (orderWords old new)

def extraWords (one other : Seat) : List (List Word) :=
  (extraVariables one other).map fun v => ["Extra variables in ", .contract other, ": ", .var other v, "\n"]

def proxyExtra : Check := .mk "extra-vars-proxy" <| .behindProxy fun s proxy => .ok (extraWords s proxy)

def versionExtra : Check := .mk "extra-vars-v2" <| .replaced fun old new => .ok (extraWords old new)

def initialValue : Check := .mk "variables-initialized" <| .alone fun s =>
  .ok (((Area.stored.variablesOf s).filter fun v => (s.program.var v).initialized).map fun v =>
    [.var s v, " is a state variable with an initial value.\n"])

/-! ## Selectors -/

def callableNames : Result (List String) := do
  let p := s.program
  let functions <- s.functions.filterM fun f => do
    let open_ <- isOpen p f
    return open_ && (p.function f).kind != .constructor && !p.isFallback f
  return (functions.map p.functionFullName ++ s.publicVars.map fun v => (p.var v).name ++ "()").eraseDups

def callable (name : String) : Result Word :=
  let p := s.program
  match s.functionByFullName? name with
  | some f => .ok (.func s f)
  | none =>
    match s.vars.find? fun v => (p.var v).visibility == some "public" && (p.var v).name ++ "()" == name with
    | some v => .ok (.var s v)
    | none => .error (.fatal s!"Function id checks: {name} not found in {s.name}")

def sharedSelectors (s proxy : Seat) : Result (List (String × String)) := do
  let table (names : List String) : Table Nat String := Table.ofList (names.map fun n => (Hash.functionId n, n))
  let other := table (<- callableNames proxy)
  return (table (<- callableNames s)).filterMap fun (id, name) => (other.find? id).map fun n => (name, n)

def selectorWords (words : String) (s proxy : Seat) (isMeant : String × String -> Bool) :
    Result (List (List Word)) := do
  ((<- sharedSelectors s proxy).filter isMeant).mapM fun (m, n) => do
    return [.text words, <- callable s m, " ", <- callable proxy n, "\n"]

def selectorCollision : Check := .mk "function-id-collision" <| .behindProxy fun s proxy =>
    selectorWords "Function id collision found: " s proxy fun (m, n) => m != n

def selectorShadowing : Check := .mk "function-shadowing" <| .behindProxy fun s proxy =>
    selectorWords "Function shadowing found: " s proxy fun (m, n) => m == n

/-! ## Initialization -/

def guard? : Option ContractId := (s.program.scope s.declaration.scope).contracts.find? "Initializable"

def inheritedGuard? : Option ContractId := (guard? s).filter s.declaration.inheritance.contains

def initializer? : Option FunctionId := s.modifierByCanonicalName? "Initializable.initializer()"

def reinitializer? : Option FunctionId := s.modifierByCanonicalName? "Initializable.reinitializer(uint64)"

def initFunctions : List FunctionId :=
  let p := s.program
  s.functions.filter fun f =>
    (p.functionName f == "initialize" || (p.modifierNames f).any ["initializer", "reinitializer"].contains) &&
      (p.function f).implemented == some true

def mainInit? : Option FunctionId :=
  let p := s.program
  let found := s.functions.filter fun f => !(p.function f).shadowed && p.functionName f == "initialize"
  match found with
  | [] => none
  | [f] => some f
  | _ => if let [f] := found.filter (p.isDeclaredBy s.contract) then some f else none

def calledInits (f : FunctionId) : List FunctionId :=
  ((s.unit.allPlacedInstrs f).filterMap (entered? ·.instr.op)).filter (s.program.functionName · == "initialize") ++ [f]

def guardPresent : Check := .mk "init-missing" <| .alone fun s => .ok (if (guard? s).isNone then
      [["Initializable contract not found, the contract does not follow a standard initalization schema.\n"]]
    else [])

def guardInherited : Check := .mk "init-inherited" <| .alone fun s => .ok ((guard? s).elim [] fun g =>
  if s.declaration.inheritance.contains g then []
    else [[.contract s, " does not inherit from ", .thing s.program (.declared (.contract g)), ".\n"]])

def initializerPresent : Check := .mk "initializer-missing" <| .alone fun s =>
  .ok (if (inheritedGuard? s).isSome && (initializer? s).isNone then
      [["Initializable.initializer() does not exist.\n"]]
    else [])

def initializerUsed : Check := .mk "missing-init-modifier" <| .alone fun s =>
    let guards := [initializer? s, reinitializer? s].filterMap id
    let isGuarded (f : FunctionId) : Bool :=
      (s.program.function f).modifiers.any fun m => guards.any fun g => m.target == .func g
    .ok (if (inheritedGuard? s).isNone || guards.isEmpty then []
      else ((initFunctions s).filter (!isGuarded ·)).map fun f =>
        [.func s f, " does not call the initializer or reinitializer modifier.\n"])

def missingCalls : Check := .mk "missing-calls" <| .alone fun s => .ok ((mainInit? s).elim [] fun main =>
  ((initFunctions s).filter fun f =>
    !(calledInits s main).contains f && !(s.program.modifierNames f).contains "reinitializer").map fun f =>
      ["Missing call to ", .func s f, " in ", .func s main, ".\n"])

def multipleCalls : Check := .mk "multiple-calls" <| .alone fun s => .ok ((mainInit? s).elim [] fun main =>
  let called := calledInits s main
  (called.eraseDups.filter (1 < called.count ·)).map fun f =>
    [.func s f, " is called multiple times in ", .func s main, ".\n"])

def initTarget : Check := .mk "initialize-target" <| .alone fun s => .ok ((mainInit? s).elim [] fun main =>
  [[.contract s, " needs to be initialized by ", .func s main, ".\n"]])

def multipleReinitializers : Check := .mk "multiple-new-reinitializers" <| .replaced fun old new =>
    let known := (initFunctions old).map old.program.functionFullName
    let added := (initFunctions new).filter fun f => !known.contains (new.program.functionFullName f)
    .ok (if ((initializer? old).isNone && (reinitializer? old).isNone) || (reinitializer? new).isNone ||
          added.length ≤ 1 then []
      else added.map fun f =>
        [.func new f, " multiple new reinitializers which should be combined into one per upgrade.\n"])

/-! ## Running checks -/

def checks : List Check :=
  [becameConstant, proxyOrder, versionOrder, versionExtra, proxyExtra, selectorShadowing, selectorCollision,
    guardInherited, initializerPresent, guardPresent, initTarget, missingCalls, initializerUsed, missingVariable,
    multipleCalls, multipleReinitializers, initialValue, wereConstant]

structure Outcome where
  run : Nat := 0
  notices : List Notice := []

def Check.notices (c : Check) (found : Result (List (List Word))) : Result (List Notice) := do
  (<- found).mapM (Notice.ofWords c.name)

def Outcome.runAll (apply : Rule -> Option (Result (List (List Word)))) : Result Outcome := do
  let runs <- (cs.filterMap fun c => (apply c.rule).map c.notices).mapM id
  return { run := runs.length, notices := runs.flatten }

def Outcome.append (x y : Outcome) : Outcome := ⟨x.run + y.run, x.notices ++ y.notices⟩

def checkAlone : Result Outcome :=
  Outcome.runAll cs fun
    | .alone find => some (find s)
    | _ => none

def checkBehindProxy (s proxy : Seat) : Result Outcome :=
  Outcome.runAll cs fun
    | .behindProxy find => some (find s proxy)
    | _ => none

def checkReplaced (old new : Seat) : Result Outcome :=
  Outcome.runAll cs fun
    | .replaced find => some (find old new)
    | _ => none

/-- The checks of the next version behind the proxy are not counted. -/
def check (proxy next : Option Seat) : Result Outcome := do
  let mut out <- checkAlone cs s
  if let some proxy := proxy then out := out.append (<- checkBehindProxy cs s proxy)
  if let some next := next then
    if let some proxy := proxy then
      out := { out with notices := out.notices ++ (<- checkBehindProxy cs next proxy).notices }
    out := (out.append (<- checkReplaced cs s next)).append (<- checkAlone cs next)
  return out

end

end ContractAudit.Upgrade
