import ContractAudit.Reader.Contracts

/-! # Reading `using` directives -/

namespace ContractAudit.Reader

open Ast hiding get require

open Load

/-! ## In contracts

What a contract inherits are the lists of its bases, and not copies of them.
-/

structure Usings where
  cells : Table ContractId (List (Option Ty × Nat)) := []
  lists : Array (List UsingItem) := #[]

namespace Usings

variable (p : Program) (u : Usings) (c : ContractId)

def cellsOf : List (Option Ty × Nat) := (u.cells.find? c).getD []

def cell? (key : Option Ty) (cells : List (Option Ty × Nat)) : Option Nat :=
  (cells.find? (p.sameType? ·.1 key)).map (·.2)

def inherit (cells theirs : List (Option Ty × Nat)) : List (Option Ty × Nat) :=
  theirs.foldl (fun cells (key, cell) =>
    if (cell? p key cells).isSome then cells.map fun x => if p.sameType? x.1 key then (x.1, cell) else x
    else cells ++ [(key, cell)]) cells

def bind (x : Option Ty × List UsingItem) : Usings :=
  match cell? p x.1 (u.cellsOf c) with
  | some i => { u with lists := u.lists.modify i (· ++ x.2) }
  | none => { cells := u.cells.insert c (u.cellsOf c ++ [(x.1, u.lists.size)]), lists := u.lists.push x.2 }

def take (bound : ContractId -> List (Option Ty × List UsingItem)) : Usings :=
  let cells := (p.contract c).inheritance.foldl (fun cells f => inherit p cells (u.cellsOf f)) []
  (bound c).foldl (bind p · c) { u with cells := u.cells.insert c cells }

def settled (bound : ContractId -> List (Option Ty × List UsingItem)) (order : List ContractId) : Usings :=
  order.foldl (take p · · bound) {}

def table : UsingTable := (u.cellsOf c).map fun x => (x.1, u.lists[x.2]?.getD [])

end Usings

variable (p : Program) (c : ContractId) (i : UsingId)

def bindTo (key : Option Ty) (items : List UsingItem) : Load Unit :=
  modifyContractDraft c fun d => { d with bound := d.bound ++ [(key, items)] }

def libraryFunction? (library name : String) (fits : FunctionId -> Bool) : Option FunctionId :=
  ((p.contracts.filter fun c => (p.contract c).name == library).flatMap fun c =>
    (p.contract c).functions.values).find? fun f => p.functionName f == name && fits f

variable (scope : ScopeId)

def isImportAlias (name : String) : Bool :=
  (p.scope scope).imports.any fun i => (p.import_ i).aliasName == some name

inductive BoundName where
  | topLevel (name : String)
  | inLibrary (library name : String)

def boundName (tree : Json) : Result BoundName := do
  let name <- textFor "split" (<- path tree ["function", "name"])
  match Text.splitOn name "." with
  | [n] => return .topLevel n
  | [first, n] => return if isImportAlias p scope first then .topLevel n else .inLibrary first n
  | _ :: library :: n :: _ => return .inLibrary library n
  | [] => return .topLevel name

def bindFunctions (key : Option Ty) (list : Json) : Load Unit := do
  for t in <- items list do
    let p <- program
    match <- boundName p (p.contract c).scope t with
    | .topLevel n => for f in p.functions do if p.functionName f == n then bindTo c key [.func f]
    | .inLibrary library n =>
      match libraryFunction? p library n fun _ => true with
      | some f => bindTo c key [.func f]
      | none => reportIncomplete c s!"Contract level using for: Library {library} - function {n} not found"

def readContractUsings : Load Unit :=
  reportMissing c "using for" (do
    for t in (<- contractDraft c).usings do
      if <- isCompact then
        let type := t.fieldOrNull "typeName"
        let key <- if type.truthy then some <$> typeOf type (.contract c) else pure none
        bindTo c key []
        match t.field? "libraryName" with
        | some l => bindTo c key [.library (<- typeOf l (.contract c))]
        | none => bindFunctions c key (<- need t "functionList")
      else
        match <- items (<- need t "children") with
        | [l] => bindTo c none [.library (<- typeOf l (.contract c))]
        | [l, k] =>
          let library <- typeOf l (.contract c)
          bindTo c (some (<- typeOf k (.contract c))) [.library library]
        | _ => require false)

def settleUsings (order : List ContractId) : Load Unit :=
  modify fun s =>
    let u := Usings.settled s.program (fun c => (s.contractDrafts.getD c default).bound) order
    { s with program := { s.program with
      contractTable := s.program.contractTable.mapIdx fun i c => { c with usingFor := u.table i } } }

/-! ## At the top level -/

def declareUsing (tree : Json) : Load UsingId := do
  let type <- need tree "typeName"
  let everywhere <- need tree "global"
  let library := tree.field? "libraryName"
  let functions <- if library.isSome then pure .null else liftM (need tree "functionList")
  let source <- place tree
  let entry : UsingTopLevel := { scope, source := source }
  modifyGet fun s => (s.program.usingTable.size,
    { s with
      program := { s.program with usingTable := s.program.usingTable.push entry }
      usingDrafts := s.usingDrafts.push
        { type, everywhere := everywhere.truthy, library, functions } })

def knowsType (s : FileScope) : Ty -> Bool
  | .valueType t => s.valueTypes.values.contains t
  | .struct t => s.structs.values.any (p.sameStruct · t)
  | .enum t => s.enums.values.contains t
  | _ => false

def isTopLevelType : Ty -> Bool
  | .valueType t => (p.valueType t).owner.isTopLevel
  | .struct t => (p.struct t).owner.isTopLevel
  | .enum t => (p.enum t).owner.isTopLevel
  | _ => false

def spreadUsing (type : Ty) : Load Unit := do
  if ((<- get).usingDrafts.getD i default).everywhere then
    modifyProgram fun p =>
      if !isTopLevelType p type then p
      else { p with scopeTable := p.scopeTable.map fun s =>
        if knowsType p s type then { s with usings := addNew i s.usings } else s }

def takesFirst (type : Ty) (f : FunctionId) : Bool :=
  match (p.function f).parameters with
  | v :: _ => p.sameType? (some type) (p.var v).type
  | [] => false

def readUsing : Load Unit := do
  let d := (<- get).usingDrafts.getD i default
  let type <- typeOf d.type (.using_ i)
  let bind (items : List UsingItem) : Load Unit :=
    modifyProgram (·.modifyUsing i fun u => { u with table := [(some type, items)] })
  bind []
  let items (p : Program) : List UsingItem := ((p.using_ i).table.flatMap (·.2))
  let add (item : UsingItem) : Load Unit := do
    bind (items (<- program) ++ [item])
    spreadUsing i type
  match d.library with
  | some l =>
    if l.truthy then
      add (.library (<- typeOf l (.using_ i)))
      return
    else pure ()
  | none => pure ()
  if d.library.isSome then throw (.lacks "UsingForTopLevelSolc" "_functions")
  for t in <- Ast.items d.functions do
    let p <- program
    let scope := (p.using_ i).scope
    let topLevel? (name : String) : Option FunctionId :=
      (p.scope scope).functions.find? fun f => p.functionName f == name && takesFirst p type f
    if <- has t "operator" then
      let name := text (<- path t ["definition", "name"])
      let operator := text (<- need t "operator")
      if let some f := topLevel? name then
        match type with
        | .valueType v => modifyProgram (·.modifyValueType v fun x => { x with operators := x.operators.insert operator f })
        | _ => throw (.lacks "UserDefinedType" "operators")
    else
      match <- boundName p scope t with
      | .topLevel n => if let some f := topLevel? n then add (.func f)
      | .inLibrary library n => if let some f := libraryFunction? p library n (takesFirst p type) then add (.func f)

end ContractAudit.Reader
