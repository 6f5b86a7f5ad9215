import ContractAudit.Ir.Store
import ContractAudit.Storage.Layout

/-! # Analyses

What is known about a unit: its program, the operations of its nodes, and what the nodes read, write and call.
-/

namespace ContractAudit

open Ir

structure OutwardCall where
  owner : Value
  instr : Instr

structure NodeCode where
  instrs : List Instr := []
  ssa : List Instr := []
  read : List Value := []
  written : List Value := []
  versionsRead : List Value := []
  versionsWritten : List Value := []
  internalCalls : List Instr := []
  builtinCalls : List Instr := []
  outwardCalls : List OutwardCall := []
  libraryCalls : List Instr := []
  lowLevelCalls : List Instr := []
  deriving Inhabited

structure Caller where
  function : FunctionId
  node : NodeId
  call : Call

structure FunctionCode where
  nodes : Array NodeCode := #[]
  dominance : Dominance := {}
  parameterVersions : List Nat := []
  returnVersions : List Nat := []
  callees : List FunctionId := []
  callers : List Caller := []
  usageKnown : Bool := false
  callsKnown : Bool := false
  deriving Inhabited

inductive Item where
  | target (t : Target)
  | temporary (i : Nat)
  | part (i : Nat)
  | tuple (i : Nat)
  | version (i : Nat)
  | versionPart (i : Nat)
  | type (text : String)
  deriving DecidableEq

abbrev Dependencies := Table Item (List Item)

/-- Dependencies of versions and of variables, also without functions that check who calls them. -/
structure DependencyMaps where
  versions : Dependencies := []
  openVersions : Dependencies := []
  plain : Dependencies := []
  openPlain : Dependencies := []

abbrev Place := FunctionId × NodeId

structure CallState where
  calls : Table NodeId (List Place) := []
  sends : Table NodeId (List Place) := []
  reads : Table VariableId (List Place) := []
  readsBefore : Table NodeId (List VariableId) := []
  written : Table VariableId (List Place) := []
  /-- Names and places of the events, with the number of the operation in its node. -/
  events : List (String × Place × Nat) := []

inductive CallbackRule where
  | anyCall
  | sendsOnly
  deriving DecidableEq

structure Memo where
  canReenter : Table FunctionId Bool := []
  genericTaint : Bool := false
  genericVersionTaint : Bool := false
  callStates : Table (CallbackRule × FunctionId) (Table NodeId CallState) := []
  /-- State variables that functions use which can be called again while they run, each with those functions. -/
  sharedVariables : Table ContractId (Table VariableId (List Target)) := []
  /-- Functions asked for with all that they call, each with the functions whose operations are kept with its own. -/
  widened : Table FunctionId (List FunctionId) := []
  tickets : Table Place (List NodeId) := []
  unsetLocals : Table Place (List VariableId) := []
  unsetPointers : Table Place (List VariableId) := []

structure Analysis where
  program : Program := {}
  store : Store := {}
  code : Array FunctionCode := #[]
  initialVersions : Table ContractId (List Nat) := []
  functionDependencies : Table FunctionId DependencyMaps := []
  contractDependencies : Table ContractId DependencyMaps := []
  inputs : List Item := []
  inputVersions : List Item := []
  layouts : Program.Layouts := {}
  memo : Memo := {}

namespace Analysis

variable (a : Analysis) (f : FunctionId) (n : NodeId)

def functionCode : FunctionCode := a.code.getD f {}

def nodeCode : NodeCode := (a.functionCode f).nodes.getD n {}

def instrs : List Instr := (a.nodeCode f n).instrs

def ssa : List Instr := (a.nodeCode f n).ssa

def flow : Flow := (a.program.function f).flow

def dominance : Dominance := (a.functionCode f).dominance

def nodeIds : List NodeId := (a.flow f).order

def allInstrs : List Instr := (a.nodeIds f).flatMap (a.instrs f)

/-- An array that is long enough for a place. -/
def grown {α : Type} (xs : Array α) (i : Nat) (d : α) : Array α :=
  if i < xs.size then xs else xs ++ .replicate (i + 1 - xs.size) d

def modifyCode (g : FunctionCode -> FunctionCode) : Analysis := { a with code := (grown a.code f default).modify f g }

def modifyNode (g : NodeCode -> NodeCode) : Analysis :=
  a.modifyCode f fun c => { c with nodes := (grown c.nodes n default).modify n g }

def style : OpStyle := .plain a.program a.store ((a.flow f).node n).checked

def opText (i : Instr) : String := (a.style f n).text i.op

end Analysis

/-! ## Contracts with their units -/

structure Seat where
  unit : Analysis
  contract : ContractId

namespace Seat

variable (s : Seat)

def program : Program := s.unit.program

def declaration : Contract := s.program.contract s.contract

def name : String := s.declaration.name

def functions : List FunctionId := s.program.functionsOf s.contract

def modifiers : List FunctionId := s.program.modifiersOf s.contract

def vars : List VariableId := s.program.stateVariables s.contract

def publicVars : List VariableId := s.vars.filter fun v => (s.program.var v).visibility == some "public"

def named (units : List Analysis) (name : String) : List Seat :=
  units.flatMap fun a => (a.program.contracts.filter fun c => (a.program.contract c).name == name).map fun c => ⟨a, c⟩

def one (units : List Analysis) (name : String) : Result Seat :=
  match named units name with
  | [s] => .ok s
  | found => .error (.lookup s!"{found.length} contracts named {name}")

end Seat

end ContractAudit
