import ContractAudit.Reader.Functions

/-! # Reading types, events and errors -/

namespace ContractAudit.Reader

open Ast hiding get require

open Load

variable (owner : Owner) (tree : Json)

def memberTrees : Result Json :=
  match tree.field? "members" with
  | some m => .ok m
  | none => return (<- Ast.get tree "children").getD (.arr [])

def declaredNames (contract : Option String) (needsFull : Bool) : Load (String × String) := do
  let a <- attributes tree
  let name := text (<- need a "name")
  match a.field? "canonicalName" with
  | some n => return (name, text n)
  | none =>
    if needsFull then throw (.missing "canonicalName")
    return (name, contract.elim name fun c => c ++ "." ++ name)

def ownerName? : Load (Option String) := do
  let p <- program
  return owner.contract?.map fun c => (p.contract c).name

def declareStruct : Load StructId := do
  let source <- place tree
  let (name, full) <- declaredNames tree (<- ownerName? owner) false
  let members <- items (<- memberTrees tree)
  let entry : Struct := { owner, name, canonicalName := full, source }
  modifyGet fun s => (s.program.structTable.size,
    { s with
      program := { s.program with structTable := s.program.structTable.push entry }
      structDrafts := s.structDrafts.push members })

def readStructMembers (i : StructId) : Load Unit := do
  let ctx := ((<- program).struct i).owner.contract?.elim (.struct i) .contract
  for t in (<- get).structDrafts.getD i [] do
    let source <- place t
    let v <- newVariable { kind := .structMember i, source }
    let _ <- declareVariable v t
    finishVariable v ctx
    let name := ((<- program).var v).name
    modifyProgram (·.modifyStruct i fun st => { st with
      members := st.members.insert name v, order := st.order ++ [name] })

def readEnum : Load EnumId := do
  let (name, full) <- declaredNames tree (<- ownerName? owner) (<- isCompact)
  let children <- match owner with
    | .contract _ => if <- isCompact then need tree "members" else need tree "children"
    | .topLevel _ => liftM (memberTrees tree)
  let values <- (<- items children).mapM fun c => do
    require (<- isKind c "EnumValue")
    return text (<- need (<- attributes c) "name")
  let source <- place tree
  let entry : EnumDecl := { owner, name, canonicalName := full, source, values }
  modifyGet fun s => (s.program.enumTable.size,
    { s with program := { s.program with enumTable := s.program.enumTable.push entry } })

def declareEvent : Load EventId := do
  let source <- place tree
  let name := text (<- need (<- attributes tree) "name")
  let elements <- if <- isCompact then do
      let list <- need tree "parameters"
      require (isText (<- need list "nodeType") "ParameterList")
      liftM (items (<- need list "parameters"))
    else do
      let lists <- childrenOfKind tree "ParameterList"
      match lists.getLast? with
      | some l => liftM (items ((l.field? "children").getD (.arr [])))
      | none => throw (.lacks (if owner.isTopLevel then "EventTopLevelSolc" else "EventContractSolc") "_elemsNotParsed")
  let entry : Event := { owner, name, source := source }
  modifyGet fun s => (s.program.eventTable.size,
    { s with
      program := { s.program with eventTable := s.program.eventTable.push entry }
      eventDrafts := s.eventDrafts.push elements })

def readEventParameters (i : EventId) : Load Unit := do
  let ctx := ((<- program).event i).owner.contract?.elim (.event i) .contract
  for t in (<- get).eventDrafts.getD i [] do
    let source <- if t.has "src" then place t else pure {}
    let v <- newVariable { kind := .eventParameter, source }
    let _ <- declareVariable v t
    finishVariable v ctx
    modifyProgram (·.modifyEvent i fun e => { e with parameters := e.parameters ++ [v] })

def declareError : Load ErrorId := do
  let source <- place tree
  let name := text (<- need tree "name")
  let tree <- attributes tree
  let entry : ErrorDecl := { owner, name, source := source }
  modifyGet fun s => (s.program.errorTable.size,
    { s with
      program := { s.program with errorTable := s.program.errorTable.push entry }
      errorDrafts := s.errorDrafts.push { tree, contract := owner.contract? } })

def readErrorParameters (i : ErrorId) : Load Unit := do
  let d <- errorDraft i
  if d.paramsDone then return
  modifyErrorDraft i fun d => { d with paramsDone := true }
  let list <- if <- isCompact then need d.tree "parameters"
    else do
      match <- childrenOfKind d.tree "ParameterList" with
      | l :: _ => pure l
      | [] => throw .exhausted
  if list.truthy then
    for t in <- parameterTrees list do
      require (<- isKind t "VariableDeclaration")
      let source <- place t
      let v <- newVariable { kind := .inFunction none none, source }
      let _ <- declareVariable v t
      finishVariable v (.error i)
      modifyVariable v fun x => { x with
        location := if x.location == some "default" then some "memory" else x.location }
      modifyProgram (·.modifyError i fun e => { e with parameters := e.parameters ++ [v] })
    modifyProgram (·.settleError i)

def readValueType : Load AliasId := do
  require (tree.has "name")
  require (tree.has "underlyingType")
  let under <- need tree "underlyingType"
  require (isText (under.fieldOrNull "nodeType") "ElementaryTypeName")
  require (under.has "name")
  let type <- Elementary.ofName (text (<- need under "name"))
  let name := text (<- need tree "name")
  let source <- place tree
  let entry : ValueType := { owner, name, underlying := type, source }
  modifyGet fun s => (s.program.valueTypeTable.size,
    { s with program := { s.program with valueTypeTable := s.program.valueTypeTable.push entry } })

end ContractAudit.Reader
