import ContractAudit.Flow.Graph
import ContractAudit.Table

/-! # Declarations -/

namespace ContractAudit

inductive VariableKind where
  | state (contract : ContractId)
  | inFunction (owner : Option FunctionId) (component : Option Nat)
  | topLevel (scope : ScopeId)
  | structMember (struct : StructId)
  | eventParameter
  | functionTypeParameter
  deriving DecidableEq, Inhabited

structure Variable where
  kind : VariableKind
  name : String := ""
  source : Source := {}
  type : Option Ty := none
  expr : Option Expr := none
  initialized : Bool := false
  visibility : Option String := none
  isConstant : Bool := false
  isImmutable : Bool := false
  reentrant : Bool := true
  writeProtection : Option (List String) := none
  location : Option String := none
  indexed : Bool := false
  initNode : Option (FunctionId × NodeId) := none
  deriving Inhabited

inductive FunctionKind where
  | normal | constructor | fallback | receive | constructorVariables | constructorConstantVariables
  deriving DecidableEq

def FunctionKind.name : FunctionKind -> String
  | normal => "NORMAL"
  | constructor => "CONSTRUCTOR"
  | fallback => "FALLBACK"
  | receive => "RECEIVE"
  | constructorVariables => "CONSTRUCTOR_VARIABLES"
  | constructorConstantVariables => "CONSTRUCTOR_CONSTANT_VARIABLES"

inductive Language where
  | solidity | yul | vyper
  deriving DecidableEq

inductive FunctionPlace where
  | inContract (contract declarer : ContractId)
  | topLevel (scope : ScopeId)
  deriving Inhabited

structure ModifierUse where
  target : Target
  entry : NodeId
  nodes : List NodeId

structure Function where
  place : FunctionPlace
  writtenName : Option String := none
  kind : FunctionKind := .normal
  kindKnown : Bool := false
  isModifier : Bool := false
  language : Language := .solidity
  id : Option Int := none
  source : Source := {}
  visibility : Option String := none
  view : Bool := false
  pure : Bool := false
  payable : Bool := false
  virtual : Bool := false
  implemented : Option Bool := none
  empty : Option Bool := none
  shadowed : Bool := false
  shadows : Bool := false
  containsAssembly : Bool := false
  documented : Bool := false
  innerScope : List String := []
  fixedName : Option String := none
  overrides : List FunctionId := []
  overriddenBy : List FunctionId := []
  parameters : List VariableId := []
  returns : List VariableId := []
  vars : Table String VariableId := []
  modifiers : List ModifierUse := []
  baseCalls : List ModifierUse := []
  parametersSource : Option Source := none
  returnsSource : Option Source := none
  flow : Flow := {}
  deriving Inhabited

inductive UsingItem where
  | library (type : Ty)
  | func (id : FunctionId)

abbrev UsingTable := List (Option Ty × List UsingItem)

structure Contract where
  name : String
  id : Int
  scope : ScopeId
  source : Source := {}
  kind : Option String := none
  isInterface : Bool := false
  isLibrary : Bool := false
  fullyImplemented : Json := .null
  isAbstract : Json := .bool false
  comments : Option String := none
  upgradeable : Option Bool := none
  proxy : Option Bool := none
  version : Option String := none
  inheritance : List ContractId := []
  immediateInheritance : List ContractId := []
  baseConstructors : List ContractId := []
  vars : Table String VariableId := []
  variablesOrdered : List VariableId := []
  variablesById : Table Int VariableId := []
  structs : Table String StructId := []
  enums : Table String EnumId := []
  events : Table String EventId := []
  errors : Table String ErrorId := []
  valueTypes : Table String AliasId := []
  functions : Table String FunctionId := []
  modifiers : Table String FunctionId := []
  usingFor : UsingTable := []
  incomplete : Bool := false
  lacksBase : Bool := false
  deriving Inhabited

inductive Owner where
  | contract (id : ContractId)
  | topLevel (scope : ScopeId)
  deriving DecidableEq, Inhabited

def Owner.contract? : Owner -> Option ContractId
  | contract c => some c
  | topLevel _ => none

def Owner.isTopLevel (o : Owner) : Bool := o.contract?.isNone

structure Struct where
  owner : Owner
  name : String
  canonicalName : String
  source : Source := {}
  members : Table String VariableId := []
  order : List String := []
  deriving Inhabited

structure EnumDecl where
  owner : Owner
  name : String
  canonicalName : String
  source : Source := {}
  values : List String
  deriving Inhabited

structure Event where
  owner : Owner
  name : String := ""
  source : Source := {}
  parameters : List VariableId := []
  deriving Inhabited

structure ErrorDecl where
  owner : Owner
  name : String := ""
  source : Source := {}
  parameters : List VariableId := []
  fullName : Option String := none
  signature : Option String := none
  deriving Inhabited

structure ValueType where
  owner : Owner
  name : String
  underlying : Elementary
  source : Source := {}
  operators : Table String FunctionId := []
  deriving Inhabited

structure Import where
  filename : String
  scope : ScopeId
  aliasName : Option String := none
  renames : Table (Option String) String := []
  source : Source := {}
  deriving Inhabited

structure PragmaDirective where
  literals : List String
  scope : ScopeId
  source : Source := {}
  deriving Inhabited

namespace PragmaDirective

variable (p : PragmaDirective)

def version : String := .join (p.literals.drop 1)

def render : String := "pragma " ++ .join p.literals

def isVersion : Bool :=
  match p.literals with
  | d :: _ => d.toLower == "solidity"
  | [] => false

end PragmaDirective

structure UsingTopLevel where
  scope : ScopeId
  source : Source := {}
  table : UsingTable := []
  deriving Inhabited

structure FileScope where
  file : FileName
  accessible : List ScopeId := []
  exported : List Int := []
  contracts : Table String ContractId := []
  errors : List ErrorId := []
  enums : Table String EnumId := []
  functions : List FunctionId := []
  events : List EventId := []
  usings : List UsingId := []
  imports : List ImportId := []
  pragmas : List Nat := []
  structs : Table String StructId := []
  vars : Table String VariableId := []
  renames : Table String String := []
  valueTypes : Table String AliasId := []
  deriving Inhabited

/-! ## Programs -/

structure Program where
  name : String := ""
  version : String := ""
  language : Language := .solidity
  lineMark : String := "#"
  files : List SourceFile := []
  contractTable : Array Contract := #[]
  functionTable : Array Function := #[]
  variableTable : Array Variable := #[]
  structTable : Array Struct := #[]
  enumTable : Array EnumDecl := #[]
  eventTable : Array Event := #[]
  errorTable : Array ErrorDecl := #[]
  valueTypeTable : Array ValueType := #[]
  importTable : Array Import := #[]
  pragmaTable : Array PragmaDirective := #[]
  usingTable : Array UsingTopLevel := #[]
  scopeTable : Array FileScope := #[]
  contracts : List ContractId := []
  structs : List StructId := []
  enums : List EnumId := []
  events : List EventId := []
  errors : List ErrorId := []
  vars : List VariableId := []
  functions : List FunctionId := []
  usings : List UsingId := []
  valueTypes : Table String AliasId := []
  allFunctions : List FunctionId := []
  allModifiers : List FunctionId := []
  references : Array (Target × Source) := #[]

namespace Program

variable (p : Program) (i : ContractId) (s : Source)

def contract : Contract := p.contractTable.getD i default
def function (i : FunctionId) : Function := p.functionTable.getD i default
def var (i : VariableId) : Variable := p.variableTable.getD i default
def struct (i : StructId) : Struct := p.structTable.getD i default
def enum (i : EnumId) : EnumDecl := p.enumTable.getD i default
def event (i : EventId) : Event := p.eventTable.getD i default
def error (i : ErrorId) : ErrorDecl := p.errorTable.getD i default
def valueType (i : AliasId) : ValueType := p.valueTypeTable.getD i default
def import_ (i : ImportId) : Import := p.importTable.getD i default
def pragma (i : Nat) : PragmaDirective := p.pragmaTable.getD i default
def using_ (i : UsingId) : UsingTopLevel := p.usingTable.getD i default
def scope (i : ScopeId) : FileScope := p.scopeTable.getD i default

def modifyContract (f : Contract -> Contract) : Program := { p with contractTable := p.contractTable.modify i f }
def modifyFunction (i : FunctionId) (f : Function -> Function) : Program :=
  { p with functionTable := p.functionTable.modify i f }
def modifyVariable (i : VariableId) (f : Variable -> Variable) : Program :=
  { p with variableTable := p.variableTable.modify i f }
def modifyStruct (i : StructId) (f : Struct -> Struct) : Program := { p with structTable := p.structTable.modify i f }
def modifyEvent (i : EventId) (f : Event -> Event) : Program := { p with eventTable := p.eventTable.modify i f }
def modifyError (i : ErrorId) (f : ErrorDecl -> ErrorDecl) : Program := { p with errorTable := p.errorTable.modify i f }
def modifyValueType (i : AliasId) (f : ValueType -> ValueType) : Program :=
  { p with valueTypeTable := p.valueTypeTable.modify i f }
def modifyImport (i : ImportId) (f : Import -> Import) : Program := { p with importTable := p.importTable.modify i f }
def modifyUsing (i : UsingId) (f : UsingTopLevel -> UsingTopLevel) : Program :=
  { p with usingTable := p.usingTable.modify i f }
def modifyScope (i : ScopeId) (f : FileScope -> FileScope) : Program := { p with scopeTable := p.scopeTable.modify i f }

def scopeNamed? (name : String) : Option ScopeId :=
  p.scopeTable.findIdx? fun s => s.file.short == name || s.file.absolute == name

def sourceText : String := s.render p.lineMark

def fileText (file : FileName) : Result String := do
  return (<- expect (p.files.find? (·.name.absolute == file.absolute)) (.missing file.absolute)).text

def textOf : Result String := do return Text.slice s.start s.stop (<- p.fileText s.file)

end Program

end ContractAudit
