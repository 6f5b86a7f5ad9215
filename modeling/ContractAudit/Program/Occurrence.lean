import ContractAudit.Program.Contracts

/-! # Occurrences

Where declarations are defined, named and implemented, and what stands at a place of a text.
-/

namespace ContractAudit

inductive Entry where
  | declared (t : Target)
  | imported (i : ImportId)
  | pragma (i : Nat)
  deriving DecidableEq

structure Occurrence where
  entry : Entry
  definition : Source
  references : List Source
  implementations : List Source
  isFoundAtDefinition : Bool
  isFoundAtReference : Bool
  within : Option (Nat × Nat)

namespace Program

def bodyVariables (p : Program) (f : FunctionId) : List VariableId :=
  let x := p.function f
  x.vars.values.filter fun v => !x.returns.contains v && !x.parameters.contains v

def contractEntries (p : Program) (c : ContractId) : List Target :=
  let x := p.contract c
  .contract c :: (p.declaredCode c).flatMap (fun f => .func f :: (p.bodyVariables f).map .var)
    ++ x.vars.values.map .var ++ x.structs.values.map .struct ++ x.enums.values.map .enum
    ++ x.events.values.map .event ++ x.valueTypes.values.map .valueType

def entries (p : Program) : List Entry :=
  let outside : List Target := p.enums.map .enum ++ p.events.map .event ++ p.functions.map .func
    ++ p.structs.map .struct ++ p.vars.map .var ++ p.valueTypes.values.map .valueType ++ p.errors.map .error
  (p.contracts.flatMap p.contractEntries ++ outside).map .declared
  ++ (List.range p.importTable.size).map .imported ++ (List.range p.pragmaTable.size).map .pragma

end Program

namespace Entry

variable (all : List Program) (p : Program) (e : Entry)

def source : Entry -> Source
  | declared t => (p.targetSource? t).getD {}
  | imported i => (p.import_ i).source
  | pragma i => (p.pragma i).source

/-- A name has a blank before it. -/
def pattern : Entry -> String
  | declared (.valueType _) => "type"
  | declared (.error _) => "error"
  | declared (.contract c) => " " ++ (p.contract c).name
  | declared t => " " ++ p.targetText t
  | imported _ => "import"
  | pragma _ => "pragma"

/-- The first place of its words without their first character, or else the start of the entry. -/
def definition : Result Source := do
  let source := e.source p
  match p.files.find? fun f => f.name.absolute == source.file.absolute with
  | none => throw (.badType "'NoneType' object is not subscriptable")
  | some file =>
    let text := Text.slice source.start (source.start + source.length) file.text
    let skipped := (Text.find? (e.pattern p) text).elim 0 fun i => i + 1
    return .ofRange file (source.start + skipped) (e.pattern p).length

def references : Entry -> List Source
  | declared t => (p.references.toList.filter (·.1 == t)).map (·.2)
  | _ => []

/-- Contracts that are not complete are implemented by those that inherit from them directly. -/
def implementations : Entry -> List Source
  | declared (.contract c) =>
    let x := p.contract c
    if x.isInterface || !x.fullyImplemented.truthy || x.isAbstract.truthy then
      all.flatMap fun q => if q.files.map (·.name) == p.files.map (·.name) then
          (q.contracts.filter fun d => (q.contract d).immediateInheritance.contains c).map fun d => (q.contract d).source
        else []
    else []
  | e@(declared (.func f)) =>
    let x := p.function f
    if (p.functionContract? f).isNone then [e.source p]
    else
      let overriding := x.overriddenBy.map fun g => (p.function g).source
      if !x.virtual || x.implemented == some true then overriding ++ [x.source] else overriding
  | e => [e.source p]

def isMember : Entry -> Bool
  | declared (.func f) => match (p.function f).place with
    | .inContract c d => c == d
    | .topLevel _ => true
  | declared (.var v) => ((p.var v).kind matches .state _ | .topLevel _)
  | declared (.struct _) | declared (.enum _) | declared (.event _) | declared (.error _) | declared (.valueType _) => true
  | _ => false

def occurrence : Result Occurrence := do
  let isContract := e matches declared (.contract _)
  let within := match e with
    | declared (.func f) => match (p.function f).place with
      | .inContract c d => if c == d then some ((p.contract c).source.start, (p.contract c).source.stop) else none
      | .topLevel _ => none
    | _ => none
  return { entry := e, definition := <- e.definition p, references := e.references p
           implementations := e.implementations all p, isFoundAtDefinition := isContract || e.isMember p
           isFoundAtReference := e.isMember p, within }

end Entry

namespace Occurrence

variable (os : List Occurrence) (all : List Program) (file : FileName) (offset : Nat)

def ofProgram (p : Program) : Result (List Occurrence) := p.entries.mapM (Entry.occurrence all p)

def ofPrograms : Result (List (Program × Occurrence)) := do
  all.flatMapM fun p => do return (<- ofProgram all p).map fun o => (p, o)

variable (start : Nat) (s : Source) (o : Occurrence)

def covers (offset : Nat) : Bool := s.start ≤ offset && offset ≤ s.stop

def isIn : Bool := s.file == file

def startsAt : Bool := isIn file s && s.start == start

/-- Places where something is named count for the file in which it is defined. -/
def starts : List Nat :=
  (os.flatMap fun o =>
    if isIn file o.definition then ((o.definition :: o.references).filter (covers · offset)).map (·.start)
    else []).eraseDups

def touches : Bool :=
  startsAt file start o.definition || o.references.any (startsAt file start)

def definesAt : Bool :=
  startsAt file start o.definition || o.references.any fun r =>
    startsAt file start r && o.within.all fun (low, high) => low < r.start && r.start < high

def standsAt : Bool :=
  isIn file o.definition &&
    ((o.isFoundAtDefinition && o.definition.start == start) ||
      (o.isFoundAtReference && o.references.any (·.start == start)))

/-- There has to be something at the offset. -/
def someStarts : Result (List Nat) :=
  let starts := starts os file offset
  if starts.isEmpty then .error (.badIndex s!"Unable to find reference for offset {offset}") else .ok starts

/-- Each place once. -/
def placesAt (pick : Nat -> Occurrence -> List Source) : Result (List Source) := do
  let found := (<- someStarts os file offset).flatMap fun start => os.flatMap (pick start)
  return found.foldl (fun seen s => if seen.any (·.same s) then seen else seen ++ [s]) []

def definitionsAt : Result (List Source) :=
  placesAt os file offset fun start o => if o.definesAt file start then [o.definition] else []

def referencesAt : Result (List Source) :=
  placesAt os file offset fun start o => if o.touches file start then o.references else []

/-- Each once. -/
def entriesAt (os : List (Program × Occurrence)) (file : FileName) (offset : Nat) :
    Result (List (Program × Entry)) := do
  let starts <- someStarts (os.map (·.2)) file offset
  let found := os.filter fun (_, o) => starts.any (o.standsAt file ·)
  return found.foldl (fun seen (p, o) =>
    if seen.any fun (q, e) => q.name == p.name && e == o.entry then seen else seen ++ [(p, o.entry)]) []

def implementationsAt : Result (List Source) :=
  placesAt os file offset fun start o => if o.touches file start then o.implementations else []

end Occurrence

end ContractAudit
