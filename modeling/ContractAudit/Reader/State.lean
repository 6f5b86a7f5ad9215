import ContractAudit.Program.Folding

/-! # State of a reader

The program so far, and for each declaration the part of the tree that was not read yet. A fault keeps what was read before
it.
-/

namespace ContractAudit

namespace Ast

variable (j : Json) (key : String)

def need : Result Json :=
  match j with
  | .obj fields => expect (Json.lookup key fields) (.missing key)
  | .str _ => .error (.badType "string indices must be integers, not 'str'")
  | .arr _ => .error (.badType "list indices must be integers or slices, not str")
  | j => .error (.badType s!"'{j.kindName}' object is not subscriptable")

def path (j : Json) : List String -> Result Json
  | [] => .ok j
  | k :: ks => do path (<- need j k) ks

def typeString : Result Json := path j ["typeDescriptions", "typeString"]

def get : Result (Option Json) :=
  match j with
  | .obj fields => .ok (Json.lookup key fields)
  | j => .error (.lacks j.kindName "get")

def has : Result Bool :=
  match j with
  | .obj fields => .ok (Json.lookup key fields).isSome
  | .str s => .ok (Text.contains s key)
  | .arr items => .ok (items.any (· == .str key))
  | j => .error (.badType s!"argument of type '{j.kindName}' is not iterable")

def items : Result (List Json) :=
  match j with
  | .arr xs => .ok xs
  | .obj fields => .ok (fields.map (.str ·.1))
  | .str s => .ok (s.toList.map (.str ·.toString))
  | j => .error (.badType s!"'{j.kindName}' object is not iterable")

def size : Result Nat :=
  match j with
  | .arr xs => .ok xs.length
  | .obj fields => .ok fields.length
  | .str s => .ok s.length
  | j => .error (.badType s!"object of type '{j.kindName}' has no len()")

def item (i : Nat) : Result Json :=
  match j with
  | .arr xs => expect xs[i]? .outOfRange
  | .str s => expect (s.toList[i]?.map (.str ·.toString)) (.badIndex "string index out of range")
  | .obj _ => .error (.missingKey (toString i))
  | j => .error (.badType s!"'{j.kindName}' object is not subscriptable")

def text : String := j.shown

def textOrNull : Option String := if j.isNull then none else some (text j)

def textFor (property : String) (j : Json) : Result String :=
  match j with
  | .str s => .ok s
  | j => .error (.lacks j.kindName property)

def require (b : Bool) : Result Unit := if b then .ok () else .error (.broken "")

mutual
def weight : Json -> Nat
  | .arr xs => weightItems xs + 1
  | .obj fs => weightFields fs + 1
  | _ => 1

def weightItems : List Json -> Nat
  | [] => 0
  | x :: xs => weight x + weightItems xs

def weightFields : List (String × Json) -> Nat
  | [] => 0
  | (_, x) :: xs => weight x + weightFields xs
end

def isText (s : String) : Bool := if let .str t := j then t == s else false

end Ast

/-! ## Names of local variables

Names of one function differ, so that versions of a variable can be told by its name.
-/

/-- A name that no variable of the function has: `_scope_N` is added as often as needed. -/
def Reader.freshName (known : List String) : Nat -> String -> Nat -> String × Nat
  | 0, name, k => (name, k)
  | fuel + 1, name, k => if known.contains name then freshName known fuel (name ++ s!"_scope_{k}") (k + 1) else (name, k)

end ContractAudit

/-! ## State of a reader -/

namespace ContractAudit.Reader

structure Options where
  disallowPartial : Bool := false
  skipAssembly : Bool := false

inductive TypeTree where
  | node (tree : Json)
  | words (text : Json)

structure VariableDraft where
  analyzed : Bool := false
  type : Option TypeTree := none
  init : Option Json := none
  reference : Option Json := none
  deriving Inhabited

structure FunctionDraft where
  tree : Json := .null
  contract : Option ContractId := none
  paramsDone : Bool := false
  contentDone : Bool := false
  renamed : Nat := 0
  byReference : Table Int VariableId := []
  locals : List VariableId := []
  returns : List Json := []
  assemblies : List Nat := []
  deriving Inhabited

structure AssemblyScope where
  path : List String
  owner : FunctionId
  outer : FunctionId
  contract : Option ContractId
  parent : Option Nat := none
  vars : List VariableId := []
  functions : List FunctionId := []
  nested : List Nat := []
  deriving Inhabited

structure CodeDraft where
  trees : List Json := []
  toDo : List FunctionId := []
  ids : List FunctionId := []
  deriving Inhabited

structure ContractDraft where
  tree : Json := .null
  functions : CodeDraft := {}
  modifiers : CodeDraft := {}
  events : List Json := []
  vars : List Json := []
  enums : List Json := []
  structs : List Json := []
  usings : List Json := []
  errors : List Json := []
  variableIds : List VariableId := []
  structIds : List StructId := []
  errorIds : List ErrorId := []
  remapping : Table Int String := []
  bases : List (Int × Json) := []
  baseCalls : List Int := []
  linearized : List Int := []
  bound : List (Option Ty × List UsingItem) := []
  deriving Inhabited

structure ErrorDraft where
  tree : Json := .null
  contract : Option ContractId := none
  paramsDone : Bool := false
  deriving Inhabited

structure UsingDraft where
  type : Json := .null
  everywhere : Bool := false
  library : Option Json := none
  functions : Json := .null
  deriving Inhabited

structure Numbers where
  contracts : Table Int ContractId := []
  functions : Table Int (List FunctionId) := []
  imports : Table Int ImportId := []
  events : Table Int EventId := []
  errors : Table Int ErrorId := []
  structs : Table Int StructId := []
  vars : Table Int VariableId := []
  valueTypes : Table Int AliasId := []
  enums : Table Int EnumId := []

structure State where
  program : Program := {}
  options : Options := {}
  compact : Bool := false
  fileNumbers : Table Int String := []
  variableDrafts : Array VariableDraft := #[]
  functionDrafts : Array FunctionDraft := #[]
  contractDrafts : Array ContractDraft := #[]
  structDrafts : Array (List Json) := #[]
  eventDrafts : Array (List Json) := #[]
  errorDrafts : Array ErrorDraft := #[]
  usingDrafts : Array UsingDraft := #[]
  assemblyScopes : Array AssemblyScope := #[]
  numbers : Numbers := {}
  order : List ContractId := []
  nextKey : Nat := 1
  bound : Nat := 0

end Reader

abbrev Load := EStateM Fault Reader.State

namespace Load

open Number

variable (j : Json) (cs : List Char) (i : FunctionId)

def lifted (x : Result α) : Load α :=
  match x with
  | .ok a => pure a
  | .error f => throw f

instance : MonadLift (Except Fault) Load := ⟨lifted⟩

def program : Load Program := return (<- get).program

def modifyProgram (f : Program -> Program) : Load Unit := modify fun s => { s with program := f s.program }

def require (b : Bool) : Load Unit := if b then pure () else throw (.broken "")

def isCompact : Load Bool := return (<- get).compact

def kindKey : Load String := return if (<- get).compact then "nodeType" else "name"

def kind : Load Json := do Ast.need j (<- kindKey)

def isKind (name : String) : Load Bool := return Ast.isText (<- kind j) name

def attributes : Load Json := do if <- isCompact then return j else Ast.need j "attributes"

/-- What stands in a tree: the children, or the list under a key. -/
def contents (key : String) : Load Json := do Ast.need j (if <- isCompact then key else "children")

def typeWords : Load Json := do if <- isCompact then Ast.typeString j else Ast.need j "type"

def freshKey : Load Nat := modifyGet fun s => (s.nextKey, { s with nextKey := s.nextKey + 1 })

def modifyVariable (v : VariableId) (f : Variable -> Variable) : Load Unit := modifyProgram (·.modifyVariable v f)
def modifyFunction (f : Function -> Function) : Load Unit := modifyProgram (·.modifyFunction i f)
def modifyContract (i : ContractId) (f : Contract -> Contract) : Load Unit := modifyProgram (·.modifyContract i f)
def modifyScope (i : ScopeId) (f : FileScope -> FileScope) : Load Unit := modifyProgram (·.modifyScope i f)

def functionDraft : Load Reader.FunctionDraft := return (<- get).functionDrafts.getD i default
def contractDraft (i : ContractId) : Load Reader.ContractDraft := return (<- get).contractDrafts.getD i default
def variableDraft (i : VariableId) : Load Reader.VariableDraft := return (<- get).variableDrafts.getD i default
def errorDraft (i : ErrorId) : Load Reader.ErrorDraft := return (<- get).errorDrafts.getD i default
def assemblyScope (i : Nat) : Load Reader.AssemblyScope := return (<- get).assemblyScopes.getD i default

def modifyFunctionDraft (f : Reader.FunctionDraft -> Reader.FunctionDraft) : Load Unit :=
  modify fun s => { s with functionDrafts := s.functionDrafts.modify i f }
def modifyContractDraft (i : ContractId) (f : Reader.ContractDraft -> Reader.ContractDraft) : Load Unit :=
  modify fun s => { s with contractDrafts := s.contractDrafts.modify i f }
def modifyVariableDraft (i : VariableId) (f : Reader.VariableDraft -> Reader.VariableDraft) : Load Unit :=
  modify fun s => { s with variableDrafts := s.variableDrafts.modify i f }
def modifyErrorDraft (i : ErrorId) (f : Reader.ErrorDraft -> Reader.ErrorDraft) : Load Unit :=
  modify fun s => { s with errorDrafts := s.errorDrafts.modify i f }
def modifyAssemblyScope (i : Nat) (f : Reader.AssemblyScope -> Reader.AssemblyScope) : Load Unit :=
  modify fun s => { s with assemblyScopes := s.assemblyScopes.modify i f }

def newVariable (v : Variable) : Load VariableId :=
  modifyGet fun s => (s.program.variableTable.size,
    { s with
      program := { s.program with variableTable := s.program.variableTable.push v }
      variableDrafts := s.variableDrafts.push {} })

def newFunction (f : Function) (d : Reader.FunctionDraft) : Load FunctionId :=
  modifyGet fun s => (s.program.functionTable.size,
    { s with
      program := { s.program with functionTable := s.program.functionTable.push f }
      functionDrafts := s.functionDrafts.push d })

def spanDigits : List Char × List Char := cs.span fun c => '0' ≤ c && c ≤ '9'

def positionAt? : Option ((List Char × List Char × List Char) × List Char) :=
  match spanDigits cs with
  | (s, ':' :: rest) =>
    match spanDigits rest with
    | (l, ':' :: rest) =>
      match rest with
      | '-' :: rest => let (f, rest) := spanDigits rest; some ((s, l, '-' :: f), rest)
      | rest => let (f, rest) := spanDigits rest; some ((s, l, f), rest)
    | _ => none
  | _ => none

/-- `fuel` is the length of the text. -/
def positions : Nat -> List Char -> List (List Char × List Char × List Char)
  | 0, _ => []
  | _, [] => []
  | fuel + 1, c :: cs =>
    match positionAt? (c :: cs) with
    | some (p, rest) => p :: positions fuel rest
    | none => positions fuel cs

def sourceOf : Load Source := do
  let text <- match j with
    | .str s => pure s
    | j => throw (.badType s!"expected string or bytes-like object, got '{j.kindName}'")
  match positions text.length text.toList with
  | [(s, l, f)] =>
    let s <- lifted (decimal (.ofList s))
    let l <- lifted (decimal (.ofList l))
    let f <- lifted (decimal (.ofList f))
    let st <- get
    match st.fileNumbers.find? f with
    | none => return { start := s.toNat, length := l.toNat }
    | some name =>
      match st.program.files.find? fun x => x.name.short == name || x.name.absolute == name with
      | some file => return .ofRange file s.toNat l.toNat
      | none => return { start := s.toNat, length := l.toNat, file := ⟨name, name⟩ }
  | _ => return {}

def place : Load Source := do sourceOf (<- Ast.need j "src")

def refer (t : Target) (s : Source) : Load Unit := modifyProgram fun p => { p with references := p.references.push (t, s) }

end Load

end ContractAudit
