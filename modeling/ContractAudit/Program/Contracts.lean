import ContractAudit.Program.Signature

/-! # Contracts and their functions -/

namespace ContractAudit.Program

variable (p : Program) (c : ContractId) (f : FunctionId)

def declaredConstructor? : Option FunctionId :=
  (p.contract c).functions.values.find? fun f => (p.function f).kind == .constructor && p.functionDeclarer? f == some c

def constructor? : Option FunctionId :=
  (p.declaredConstructor? c).or ((p.contract c).inheritance.findSome? p.declaredConstructor?)

def derivedContracts : List ContractId := p.contracts.filter fun d => (p.contract d).inheritance.contains c

def isPublic : Bool :=
  let v := (p.function f).visibility
  v == some "public" || v == some "external"

def isFallback : Bool := (p.function f).kind == .fallback

def functionsOf : List FunctionId := (p.contract c).functions.values

def modifiersOf : List FunctionId := (p.contract c).modifiers.values

def stateVariables : List VariableId := (p.contract c).vars.values

def isDeclaredBy : Bool := p.functionDeclarer? f == some c

def declaredFunctions : List FunctionId := (p.functionsOf c).filter (p.isDeclaredBy c)

def declaredModifiers : List FunctionId := (p.modifiersOf c).filter (p.isDeclaredBy c)

def declaredCode : List FunctionId := p.declaredFunctions c ++ p.declaredModifiers c

def allDeclared : List FunctionId := p.contracts.flatMap p.declaredFunctions

def allCode : List FunctionId := p.contracts.flatMap p.declaredCode

def stateOwner? (v : VariableId) : Option ContractId := if let .state c := (p.var v).kind then some c else none

def declaredVariables : List VariableId := (p.stateVariables c).filter (p.stateOwner? · == some c)

def declaredStructs : List StructId := (p.contract c).structs.values.filter fun s => (p.struct s).owner == .contract c

def declaredEnums : List EnumId := (p.contract c).enums.values.filter fun e => (p.enum e).owner == .contract c

def declaredEvents : List EventId := (p.contract c).events.values.filter fun e => (p.event e).owner == .contract c

def nodeCount : Nat := (List.range p.functionTable.size).foldl (fun k f => k + (p.function f).flow.nodes.size) 0

def entryPoints : List FunctionId :=
  (p.contract c).functions.values.filter fun f => (p.isPublic f && !(p.function f).shadowed) || p.isFallback f

def isInitial : Bool := (p.function f).kind == .constructorVariables || (p.function f).kind == .constructorConstantVariables

def modifierNames : List String := (p.function f).modifiers.map (p.targetText ·.target)

/-! ## Initial values

Functions that assign the initial values of state variables one after the other.
-/

def initialNode (checked : Bool) (v : VariableId) : Node :=
  let x := p.var v
  let left := .name { written := true } (.var v) .plain none
  { kind := .otherEntryPoint, source := x.source, checked := checked
    expr := x.expr.map fun e => .assign { source := x.source } .assign left e (.type x.type) }

def chain (nodes : List Node) : Flow :=
  let g := nodes.foldl (fun (g : Flow) n => (g.add n).1) {}
  (List.range (nodes.length - 1)).foldl (fun g i => g.link i (i + 1)) g

def addInitialFunction (kind : FunctionKind) (vs : List VariableId) : Program :=
  if vs.isEmpty then p
  else
    let checked := !(p.version < "0.8.0")
    let f := p.functionTable.size
    let p' := { p with functionTable := p.functionTable.push {
      place := .inContract c c, kind, kindKnown := true, visibility := some "internal"
      source := (p.contract c).source, flow := chain (vs.map (p.initialNode checked)) } }
    let name := p'.functionCanonicalName f
    let p' := vs.zipIdx.foldl (fun p (v, i) => p.modifyVariable v fun x => { x with initNode := some (f, i) }) p'
    p'.modifyContract c fun x => { x with functions := x.functions.insert name f }

def addInitialFunctions : Program :=
  let vs := (p.contract c).vars.values.filter fun v => (p.var v).expr.isSome
  let isConstant (v : VariableId) : Bool := (p.var v).isConstant
  (p.addInitialFunction c .constructorVariables (vs.filter (!isConstant ·))).addInitialFunction c
    .constructorConstantVariables (vs.filter isConstant)

/-! ## Shadowing by inheritance -/

/-- Of those with one name, the last counts. -/
def inheritedShadowing : Table String FunctionId :=
  let inherited := (p.functionsOf c).filter fun f =>
    let x := p.function f
    !p.isDeclaredBy c f && x.shadows && x.kind != .constructor && x.kind != .constructorVariables &&
      x.kind != .constructorConstantVariables
  Table.ofList (inherited.map fun f => (p.functionFullName f, f))

def inheritanceCollisions : Table FunctionId (List FunctionId) :=
  let chosen := p.inheritedShadowing c
  ((p.contract c).immediateInheritance.flatMap p.functionsOf).foldl (fun found f =>
    (chosen.find? (p.functionFullName f)).elim found fun g =>
      if (p.function f).shadowed || p.functionCanonicalName g == p.functionCanonicalName f then found
      else found.alter g [] (addNew f)) []

/-- The contract and its variable, then the base and the variable of the same name there. -/
def shadowingVariables : List (ContractId × VariableId × ContractId × VariableId) :=
  (p.contracts.flatMap fun c =>
    let declared := p.declaredVariables c
    (p.contract c).immediateInheritance.flatMap fun d =>
      (p.stateVariables d).filterMap fun w =>
        let name := (p.var w).name
        ((declared.filter fun v => (p.var v).name == name).getLast?).map fun v => (c, v, d, w)).eraseDups

end ContractAudit.Program
