import ContractAudit.Program.Contracts

/-! # Storage layout

Slots have 32 bytes. A variable that does not start a slot goes behind the one before it if it fits into the slot.
-/

namespace ContractAudit

open Number

namespace Storage

structure Extent where
  size : Nat
  startsSlot : Bool
  deriving DecidableEq

structure Position where
  slot : Nat := 0
  offset : Nat := 0

def place (free : Position) (e : Extent) : Position :=
  if e.startsSlot then if free.offset > 0 then ⟨free.slot + 1, 0⟩ else free
  else if e.size + free.offset > 32 then ⟨free.slot + 1, 0⟩ else free

/-- The size is divided as a double and then rounded up. -/
def slotsOf (size : Nat) : Nat := (nearestDouble size 32).ceil.toNat

def behind (at_ : Position) (e : Extent) : Position :=
  if e.startsSlot then { at_ with slot := at_.slot + slotsOf e.size } else { at_ with offset := at_.offset + e.size }

def placesFrom (free : Position) : List Extent -> List Position
  | [] => []
  | e :: es =>
    let at_ := place free e
    at_ :: placesFrom (behind at_ e) es

variable (es : List Extent)

def places : List Position := placesFrom {} es

def freeAfter : Position := es.foldl (fun free e => behind (place free e) e) {}

def slotCount : Nat :=
  let free := freeAfter es
  if free.offset > 0 then free.slot + 1 else free.slot

def enumBytes (count : Nat) : Nat := if count ≤ 1 then 0 else (.log2 (count - 1)) / 8 + 1

end Storage

namespace Program

open Storage

variable (p : Program) (c : ContractId) (v : VariableId)

def extentFrom (p : Program) : Nat -> Ty -> Result Extent
  | 0, _ => .error .depth
  | fuel + 1, t =>
    match t with
    | .elementary e => do
      let (size, starts) <- e.storageSize
      return ⟨size, starts⟩
    | .array element (some length) => do
      let e <- p.extentFrom fuel element
      let n <- decimal length.shown
      return ⟨e.size * n.toNat, true⟩
    | .array _ none | .mapping _ _ | .information _ => .ok ⟨32, true⟩
    | .function .. => .ok ⟨24, false⟩
    | .contract _ => .ok ⟨20, false⟩
    | .enum e =>
      if (p.enum e).values.isEmpty then .error (.badValue "math domain error")
      else .ok ⟨enumBytes (p.enum e).values.length, false⟩
    | .struct s => do
      let es <- (p.structMembers s).mapM fun v =>
        match (p.var v).type with
        | some t => p.extentFrom fuel t
        | none => .error (.lacks "NoneType" "storage_size")
      return ⟨32 * slotCount es, true⟩
    | .valueType v => do
      let (size, starts) <- (p.valueType v).underlying.storageSize
      return ⟨size, starts⟩

def extent (t : Ty) : Result Extent := p.extentFrom (p.typeBound (some t) + 1) t

def variableExtent : Result Extent :=
  match (p.var v).type with
  | some t => p.extent t
  | none => .error (.broken "")

def isStored : Bool :=
  let x := p.var v
  !x.isConstant && !x.isImmutable && x.location != some "transient"

def isTransient : Bool := (p.var v).location == some "transient"

def storedVariables : List VariableId := (p.contract c).variablesOrdered.filter p.isStored

def transientVariables : List VariableId := (p.contract c).variablesOrdered.filter p.isTransient

def mostDerived : List ContractId :=
  p.contracts.filter fun c => !p.contracts.any fun d => (p.contract d).inheritance.contains c

def layoutOf (vs : List VariableId) : Result (Table String Position) := do
  let es <- vs.mapM p.variableExtent
  return Table.ofList ((vs.map p.variableCanonicalName).zip (places es))

structure Layouts where
  stored : Table String (Table String Position) := []
  transient : Table String (Table String Position) := []

/-- Of contracts from which no other inherits. Of those with one name, the last counts. -/
def layouts : Result Layouts :=
  p.mostDerived.foldlM (fun l c => do
    let name := (p.contract c).name
    let stored <- p.layoutOf (p.storedVariables c)
    let transient <- p.layoutOf (p.transientVariables c)
    return { stored := l.stored.insert name stored, transient := l.transient.insert name transient }) {}

def positionIn (l : Layouts) (c : ContractId) (v : VariableId) : Result Position := do
  let name := (p.contract c).name
  let table := if p.isStored v then l.stored else l.transient
  let some found := table.find? name | throw (.missing name)
  let some position := found.find? (p.variableCanonicalName v) | throw (.missing (p.variableCanonicalName v))
  return position

end Program

end ContractAudit
