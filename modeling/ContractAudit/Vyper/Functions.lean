import ContractAudit.Reader.Functions
import ContractAudit.Vyper.Expressions

/-! # Vyper functions

A loop over a range or a list counts its rounds in a variable of its own, and declares the loop variable anew in each round.
-/

namespace ContractAudit.Vyper

structure Local where
  id : VariableId
  name : String
  typeTerm : Term
  source : Source := {}
  initialized : Bool := false

structure Draft where
  flow : Flow := {}
  actions : Table NodeId Action := []
  locals : List Local := []
  renamed : Nat := 0
  next : VariableId := 0

namespace Draft

/-- Under a name that no other variable of the function has. Variables without a name are not told apart. -/
def addLocal (d : Draft) (x : Local) : Draft :=
  let known := d.locals.map (·.name)
  let (name, k) := if x.name == "" then (x.name, d.renamed) else Reader.freshName known (known.length + 1) x.name d.renamed
  { d with locals := d.locals ++ [{ x with name }], renamed := k }

def addNode (d : Draft) (n : Node) (action : Option Action) : Draft × NodeId :=
  let (g, i) := d.flow.add n
  ({ d with flow := g, actions := d.actions ++ (action.map fun a => (i, a)).toList }, i)

def link (d : Draft) (a b : NodeId) : Draft := { d with flow := d.flow.link a b }

end Draft

structure Environment where
  place : String -> Result Source
  fields : List (String × Term) := []

abbrev Lowering := EStateM Fault Draft

namespace Lowering

variable (env : Environment)

instance : MonadLift (Except Fault) Lowering := ⟨ofExcept⟩

def link (a b : NodeId) : Lowering Unit := modify (·.link a b)

def node (kind : NodeKind) (position : String) (action : Option Action) : Lowering NodeId := do
  let source <- env.place position
  modifyGet fun d => let (d, i) := d.addNode { kind, source := source } action; (i, d)

def nameOf : Term -> Result String
  | .name _ id => .ok id
  | t => .error (.lacks t.kindName "id")

def declareLocal (position name : String) (typeTerm : Term) (initialized : Bool) :
    Lowering VariableId := do
  let source <- env.place position
  if !typeTerm.isTypeTerm then throw (.broken "")
  modifyGet fun d => (d.next, { d.addLocal ⟨d.next, name, typeTerm, source, initialized⟩ with next := d.next + 1 })

def declaration (position : String) (v : VariableId) (value : Option Term) : Lowering NodeId := do
  let n <- node env .declaration position (value.map .value)
  modify fun d => { d with flow := d.flow.modify n fun x => { x with declared := some v } }
  return n

def declare (before : NodeId) (position : String) (target typeTerm : Term)
    (value : Option Term) : Lowering NodeId := do
  let v <- declareLocal env position (<- nameOf target) typeTerm value.isSome
  let n <- declaration env position v value
  link before n
  return n

def single (before : NodeId) (kind : NodeKind) (position : String) (action : Option Action) :
    Lowering NodeId := do
  let n <- node env kind position action
  link before n
  return n

/-! ## Loops -/

def counterName : String := "counter_var"

def counter : Term := .name {} counterName

def goesOn (bound : Term) : Action := .value (.compare {} "<=" counter bound)

def increment : Action := .augment {} "+=" counter (.int {} "1")

structure Rounds where
  bound : Term
  typeTerm : Term
  value : Term

def elementType : Term -> Result Term
  | .subscript _ (.name _ "DynArray") slice =>
    match slice with
    | .index _ (.tuple _ (element :: _)) => .ok element
    | .index _ (.tuple _ []) => .error .outOfRange
    | .index _ t => .error (.lacks t.kindName "elements")
    | t => .error (.lacks t.kindName "value")
  | .subscript _ element@(.name ..) _ => .ok element
  | .subscript _ t _ => .error (.lacks t.kindName "id")
  | t => .error (.lacks t.kindName "value")

def typeTermIn (declared : List (String × Term)) (name : String) : Result Term :=
  (declared.find? fun (n, _) => n == name).elim (.error .outOfRange) fun (_, t) => .ok t

def roundsThrough (declared : List (String × Term)) (iterator : Term) (name : String) : Result Rounds := do
  let typeTerm <- typeTermIn declared name
  return { bound := .call {} (.name {} "len") [iterator] []
           typeTerm := <- elementType typeTerm
           value := .subscript {} (.name {} name) (.index {} counter) }

/-- Through a state variable, through a variable of the function, or over a range. -/
def rounds (fields locals : List (String × Term)) : Term -> Result Rounds
  | t@(.member _ _ attr) => roundsThrough fields t attr
  | t@(.name _ id) => roundsThrough locals t id
  | .call _ _ (bound :: _) _ => .ok { bound, typeTerm := .name {} "uint256", value := counter }
  | .call _ _ [] _ => .error .outOfRange
  | _ => .error (.unhandled "")

structure Exits where
  continue_ : NodeId
  break_ : NodeId

/-- Outside of loops there is none. -/
def exit? (exits : Option Exits) (part : Exits -> NodeId) : Result NodeId :=
  exits.elim (.error (.lacks "NoneType" "underlying_node")) fun e => .ok (part e)

mutual
def stmt (env : Environment) (exits : Option Exits) (before : NodeId) : Statement -> Lowering NodeId
  | .declare s target typeTerm value => declare env before s.position target typeTerm value
  | .act s a => single env before .expression s.position (some a)
  | .expression s value =>
    if value matches .name .. then return before
    else single env before .expression s.position (some (.value value))
  | .log s value => single env before .expression s.position (some (.value value))
  | .returns s value => single env before .returns s.position (value.map .value)
  | .pass _ => return before
  | .continues s => do
    let n <- single env before .continues s.position none
    link n (<- exit? exits (·.continue_))
    return before
  | .breaks s => do
    let n <- single env before .breaks s.position none
    link n (<- exit? exits (·.break_))
    return before
  | .ifElse s test whenTrue whenFalse => do
    let c <- node env .branch test.site.position (some (.value test))
    let stop <- node env .endIf s.position none
    let t <- stmts env exits c whenTrue
    if whenTrue.isEmpty then throw (.lacks "NoneType" "underlying_node")
    link t stop
    let f <- stmts env exits c whenFalse
    link f stop
    link before c
    return stop
  | .forLoop s target iterator body => do
    let start <- node env .startLoop s.position none
    let stop <- node env .endLoop s.position none
    link before start
    let v <- declareLocal env s.position counterName (.name {} "uint256") true
    let init <- declaration env s.position v (some (.int {} "0"))
    link start init
    let r <- rounds env.fields ((<- get).locals.map fun x => (x.name, x.typeTerm)) iterator
    let c <- node env .loopBranch s.position (some (goesOn r.bound))
    link init c
    let next <- node env .expression s.position (some increment)
    link next c
    let x <- declare env c target.site.position target r.typeTerm (some r.value)
    let b <- stmts env (some ⟨next, stop⟩) x body
    link b next
    link c stop
    return stop
  | .other kind => throw (.parsing s!"Statement not parsed {kind}")

def stmts (env : Environment) (exits : Option Exits) (before : NodeId) : List Statement -> Lowering NodeId
  | [] => return before
  | s :: rest => do stmts env exits (<- stmt env exits before s) rest
end

def body (checked : Bool) (statements : List Statement) : Lowering Unit := do
  let entry <- modifyGet fun d => let (d, i) := d.addNode { kind := .entryPoint, checked } none; (i, d)
  modify fun d => { d with flow := { d.flow with entry := some entry } }
  let _ <- stmts env none entry statements
  modify fun d => { d with flow := d.flow.markReachable entry }

end Lowering

open Load

/-! ## Reading Vyper functions -/

structure FunctionDraft where
  id : FunctionId
  item : FunctionItem
  draft : Draft := {}

def decorated (f : Function) : List Term -> Result Function
  | [] => .ok f
  | .call .. :: rest => decorated f rest
  | .name _ id :: rest =>
    decorated (match id with
      | "external" | "public" | "internal" => { f with visibility := some id }
      | "view" => { f with view := true }
      | "pure" => { f with pure := true }
      | "payable" => { f with payable := true }
      | "nonpayable" => { f with payable := false }
      | _ => f) rest
  | t :: _ => .error (.lacks t.kindName "id")

def kindOf (name : String) : FunctionKind :=
  if name == "__init__" then .constructor else if name == "__default__" then .fallback else .normal

variable (c : ContractId) (f : FunctionDraft)

/-- Its name in full is told before its parameters are known. -/
def declareFunction (x : FunctionItem) : Load FunctionDraft := do
  let source <- sourceOf (.str x.site.position)
  let owner := ((<- program).contract c).name
  let f <- decorated { place := .inContract c c, writtenName := some x.name, kind := kindOf x.name, kindKnown := true
                       language := .vyper, id := some x.site.number, source, documented := x.documented
                       fixedName := some s!"{owner}.{x.name}()" } x.decorators
  let f <- newFunction { f with visibility := some (f.visibility.getD "external") } {}
  modifyContract c fun y => { y with functions := y.functions.insert s!"{owner}.{x.name}()" f }
  modifyProgram fun p => { p with allFunctions := addNew f p.allFunctions }
  return { id := f, item := x }

def registerLocals (f : FunctionId) (locals : List Local) : Load Unit := do
  for x in locals do
    let _ <- newVariable { kind := .inFunction (some f) none, name := x.name, source := x.source
                           initialized := x.initialized, location := some "memory" }
    modifyFunction f fun fn => { fn with vars := fn.vars.insert x.name x.id }

def environment (fields : List (String × Term)) : Load Environment := do
  let s <- get
  return { fields := fields
           place := fun position => match (sourceOf (.str position)).run s with
             | .ok source _ => .ok source
             | .error f _ => .error f }

def extend {α : Type} (x : Lowering α) : Load (α × FunctionDraft) := do
  let known := f.draft.locals.length
  match x.run { f.draft with next := (<- program).variableTable.size } with
  | .ok a d =>
    registerLocals f.id (d.locals.drop known)
    return (a, { f with draft := d })
  | .error fault _ => throw fault

def resultTerms : Term -> Result (List Term)
  | t@(.name ..) | t@(.subscript ..) => .ok [t]
  | .tuple _ elements => .ok elements
  | _ => .error (.broken "")

def readHead (env : Environment) (f : FunctionDraft) : Load FunctionDraft := do
  let source <- sourceOf (.str f.item.parametersSite.position)
  modifyFunction f.id fun fn => { fn with parametersSource := some source }
  let (parameters, f) <- extend f (f.item.parameters.mapM fun x =>
    Lowering.declareLocal env x.site.position x.name x.typeTerm false)
  modifyFunction f.id fun fn => { fn with parameters }
  let some t := f.item.result | return f
  let source <- sourceOf (.str t.site.position)
  modifyFunction f.id fun fn => { fn with returnsSource := some source }
  let terms <- resultTerms t
  let (results, f) <- extend f (terms.mapM fun t => Lowering.declareLocal env t.site.position "" t false)
  modifyFunction f.id fun fn => { fn with returns := results }
  return f

def callDecorator? (decorators : List Term) : Option Term := decorators.reverse.find? (· matches .call ..)

def guardName : Term -> Result String
  | .call _ func args _ => do
    match args with
    | [] => Lowering.nameOf func
    | arg :: _ =>
      let name <- Lowering.nameOf func
      match arg with
      | .int _ v | .hex _ v | .str _ v | .bytes _ v | .truth _ v => return s!"{name}({v})"
      | t => throw (.lacks t.kindName "value")
  | t => .error (.lacks t.kindName "func")

def readGuard : Load Unit := do
  let some t := callDecorator? f.item.decorators | return
  let name <- guardName t
  let source <- sourceOf (.str t.site.position)
  let m <- newFunction { place := .inContract c c, writtenName := some name, isModifier := true, source } {}
  let entry := ((<- program).function f.id).flow.entry
  let use : ModifierUse := { target := .func m, entry := entry.getD 0, nodes := entry.toList }
  modifyFunction f.id fun fn => { fn with modifiers := fn.modifiers ++ [use] }

/-- A body that starts with `pass` is none. -/
def readContent (env : Environment) (defaults : Table FunctionId (List Term)) (c : ContractId) (f : FunctionDraft) :
    Load Unit := do
  let isEmpty := f.item.body matches [] | .pass _ :: _
  modifyFunction f.id fun fn => { fn with implemented := some !isEmpty, empty := some isEmpty }
  let f <- if isEmpty then pure f else do
    let checked <- Reader.isChecked
    let (_, f) <- extend f (.body env checked f.item.body)
    modifyFunction f.id fun fn => { fn with flow := f.draft.flow }
    pure f
  let fuel := (<- get).bound
  let r : Reading := { scope := .function f.id c, defaults }
  for x in f.draft.locals do
    let t <- readType fuel r x.typeTerm
    modifyVariable x.id fun v => { v with type := some t }
  for (i, action) in f.draft.actions do Reader.setNodeExpr f.id i (<- readAction fuel r action)
  readGuard c f

end ContractAudit.Vyper
