import ContractAudit.Analysis.Kinds

/-! # Changes between versions of a contract

Two functions are compared by walking through both graphs at the same time. What calls changed functions or shares variables
with them behaves differently, too.
-/

namespace ContractAudit.Upgrade

variable (old : Seat) (new : Seat) (v : VariableId) (w : VariableId)

def inOneUnit : Bool := old.program.name == new.program.name

def sameType : Bool :=
  match (old.program.var v).type, (new.program.var w).type with
  | some t, some u => old.program.sameTypeAs new.program (inOneUnit old new) t u
  | none, none => true
  | _, _ => false

def sameName : Bool := (old.program.var v).name == (new.program.var w).name

def sameDeclaration : Bool := sameName old new v w && sameType old new v w

inductive Area where
  | stored | transient

def Area.variablesOf (area : Area) (s : Seat) : List VariableId :=
  match area with
  | stored => s.program.storedVariables s.contract
  | transient => s.program.transientVariables s.contract

def slotVariables (s : Seat) : List VariableId := Area.stored.variablesOf s ++ Area.transient.variablesOf s

/-- They are looked for only if the later version has fewer variables. -/
def missingVariables : List VariableId :=
  let before := slotVariables old
  let after := slotVariables new
  if after.length < before.length then before.filter fun v => !after.any (sameName old new v) else []

def misplacedIn (area : Area) (old new : Seat) : List (VariableId × VariableId) :=
  ((area.variablesOf old).zip (area.variablesOf new)).filter fun (v, w) => !sameDeclaration old new v w

/-- Variables at the same place that have another name or another type. -/
def misplacedVariables : List (VariableId × VariableId) := misplacedIn .stored old new ++ misplacedIn .transient old new

def extraVariables : List VariableId :=
  let extra (area : Area) : List VariableId := (area.variablesOf new).drop (area.variablesOf old).length
  extra .stored ++ extra .transient

/-- Where a constant meets a variable that looks different, the variable may be new: as many are left out as there are more
variables than before. -/
def aligned : Nat -> List VariableId -> List VariableId -> List (VariableId × VariableId)
  | spare, v :: vs, w :: ws =>
    if (old.program.var v).isConstant && !(new.program.var w).isConstant &&
        !sameDeclaration old new v w && 0 < spare then
      aligned (spare - 1) (v :: vs) ws
    else (v, w) :: aligned spare vs ws
  | _, _, _ => []

def alignedVariables : List (VariableId × VariableId) :=
  aligned old new (new.vars.length - old.vars.length) old.vars new.vars

def lostConstants : List (VariableId × VariableId) :=
  (alignedVariables old new).filter fun (v, w) => (old.program.var v).isConstant && !(new.program.var w).isConstant

def newConstants : List (VariableId × VariableId) :=
  (alignedVariables old new).filter fun (v, w) => !(old.program.var v).isConstant && (new.program.var w).isConstant

open Ir Analysis

/-! ## Changes between versions of a contract -/

structure Version where
  unit : Analysis
  function : FunctionId

namespace Version

def flow (v : Version) : Flow := v.unit.flow v.function

def content (v : Version) : Result String := v.unit.program.textOf (v.unit.program.function v.function).source

def maxSons (v : Version) : Nat := (v.unit.nodeIds v.function).foldl (fun k n => max k ((v.flow).sons n).length) 0

/-- A node is queued only if it was not visited, so each entry of the queue ends a path on which no node occurs twice. -/
def walkBound (v : Version) : Nat := Nat.pow (v.maxSons + 1) ((v.unit.nodeIds v.function).length + 1)

end Version

structure Walk where
  queue : List NodeId
  visited : List NodeId := []

/-- The nodes that follow it are put into the queue unless they were visited. -/
def Walk.visit (flow : Flow) (node : NodeId) (rest visited : List NodeId) : Walk :=
  let visited := node :: visited
  ⟨rest ++ (flow.sons node).filter (!visited.contains ·), visited⟩

/-- The walks go on until one of them ends. -/
def differs (v w : Version) : Nat -> Walk -> Walk -> Result Bool
  | 0, _, _ => .ok false
  | fuel + 1, ⟨m :: ms, seenM⟩, ⟨n :: ns, seenN⟩ => do
    if (v.unit.instrs v.function m).length != (w.unit.instrs w.function n).length then return true
    if (<- v.unit.nodeShape v.function m) != (<- w.unit.nodeShape w.function n) then return true
    differs v w fuel (.visit v.flow m ms seenM) (.visit w.flow n ns seenN)
  | _, _, _ => .ok false

def entryOf (v : Version) : Result NodeId := expect (v.flow).entry (.lacks "NoneType" "sons")

/-- Its text is another one, and so are its operations. -/
def isModified (v w : Version) : Result Bool := do
  if (<- v.content) == (<- w.content) then return false
  differs v w (v.walkBound + w.walkBound) ⟨[<- entryOf v], []⟩ ⟨[<- entryOf w], []⟩

structure AffectedContract where
  contract : ContractId
  functions : List FunctionId := []
  vars : List VariableId := []

/-- The functions and variables are those of the later version, apart from the missing ones. -/
structure Comparison where
  missing : List VariableId := []
  newVariables : List VariableId := []
  affectedVariables : List VariableId := []
  newFunctions : List FunctionId := []
  modified : List FunctionId := []
  affected : List FunctionId := []
  contracts : List AffectedContract := []

def present (f : Option FunctionId) (property : String) : Result FunctionId := expect f (.lacks "NoneType" property)

def changedFunctions (old new : Seat) : Result (List FunctionId × List FunctionId) := do
  let before := old.functions.map old.program.soliditySignature
  (new.functions.map new.program.soliditySignature).foldlM (fun (added, modified) signature => do
    let f? := new.functionBySignature? signature
    if !before.contains signature then return (added ++ [<- present f? "all_state_variables_written"], modified)
    let f <- present f? "is_constructor_variables"
    if new.program.isInitial f then return (added, modified)
    let g <- present (old.functionBySignature? signature) "source_mapping"
    if <- isModified ⟨old.unit, g⟩ ⟨new.unit, f⟩ then return (added, modified ++ [f])
    return (added, modified)) ([], [])

/-- It calls a changed function, or shares a variable that a changed function writes. -/
def isAffected (s : Seat) (changed : List FunctionId) (written : List VariableId) (f : FunctionId) : Bool :=
  let a := s.unit
  let p := s.program
  let calls := (a.internalCalls f).filterMap (calledFunction? ·.op)
  let touched := a.allStateRead f ++ a.allStateWritten f
  changed.any calls.contains || written.any fun v => touched.contains v && !(p.var v).isConstant && !(p.var v).isImmutable

def isPlain (p : Program) (f : FunctionId) : Bool := !([.constructor, .fallback, .receive].contains (p.function f).kind)

variable (a : Analysis) (changed : List FunctionId)

def AffectedContract.addCall (x : AffectedContract) (op : Op) : AffectedContract :=
  let p := a.program
  match callee? op with
  | some (.func f) =>
    if !changed.contains f && !x.functions.contains f && isPlain p f then
      { x with functions := x.functions ++ [f], vars := addAllNew x.vars (a.allStateWritten f) }
    else x
  | some (.var v) => if p.isStateVariable v && p.isStored v then { x with vars := addNew v x.vars } else x
  | _ => x

def AffectedContract.spread (x : AffectedContract) : AffectedContract :=
  let s : Seat := ⟨a, x.contract⟩
  x.vars.foldl (fun x v =>
    { x with functions := addAllNew x.functions ((s.readersOf v ++ s.writersOf v).filter (isPlain a.program)) }) x

/-- Contracts go by their names. -/
def affectedContracts : List AffectedContract :=
  let calls := changed.flatMap a.allOutwardCalls
  let found := calls.foldl (fun (found : Table String AffectedContract) call =>
    match call.owner with
    | .target (.contract c) =>
      if (a.program.contract c).isLibrary then found
      else
        let name := (a.program.contract c).name
        let known := (found.find? name).getD { contract := c }
        found.insert name (known.addCall a changed call.instr.op)
    | _ => found) []
  found.values.map (·.spread a)

def isGenerated (p : Program) (f : FunctionId) : Bool := Text.startsWith (p.functionName f) "slither"

def compare (old new : Seat) (withContracts : Bool) : Result Comparison := do
  let p := new.program
  let (added, modified) <- changedFunctions old new
  let changed := added ++ modified
  let written := (changed.flatMap new.unit.allStateWritten).eraseDups
  let affected := new.functions.filter fun f =>
    !changed.contains f && (p.function f).kind != .constructor && !isGenerated p f && isAffected new changed written f
  let isKnown (v : VariableId) : Bool := (old.declaration.variablesOrdered).any (sameName old new · v)
  let order := slotVariables new
  return { missing := missingVariables old new
           newVariables := order.filter (!isKnown ·)
           affectedVariables := order.filter fun v => isKnown v && (new.writersOf v).any (changed ++ affected).contains
           newFunctions := added, modified, affected := affected
           contracts := if withContracts then affectedContracts new.unit (changed ++ affected) else [] }

end ContractAudit.Upgrade
