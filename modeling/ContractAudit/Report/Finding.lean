import ContractAudit.Program.Signature

/-! # Patches of source texts

Patches of one text are applied one after the other, each shifted by the growth of the text so far.
-/

namespace ContractAudit.Report

structure Patch where
  start : Int
  stop : Int
  old : String := ""
  new : String
  deriving DecidableEq

namespace Patch

/-- Gives the shift for the next patch, too. Growth counts characters of the new text. -/
def apply (p : Patch) (bytes : List UInt8) (shift : Int) : List UInt8 × Int :=
  (Text.between none (some (p.start + shift)) bytes ++ p.new.toUTF8.data.toList ++
      Text.between (some (p.stop + shift)) none bytes,
    shift + (p.new.length - (p.stop - p.start)))

variable (ps : List Patch) (bytes : List UInt8)

def applyAll : List UInt8 × Int :=
  ps.foldl (fun (bytes, shift) p => p.apply bytes shift) (bytes, 0)

def inOrder : List Patch := ps.mergeSort fun p q => decide (p.start ≤ q.start)

def endInOrder : List Patch -> Bool
  | p :: q :: rest => decide (p.stop ≤ q.stop) && endInOrder (q :: rest)
  | _ => true

/-- The text with all patches, unless they collide. -/
def patched? : Option (List UInt8) :=
  let ps := inOrder ps
  if endInOrder ps then some (applyAll ps bytes).1 else none

end Patch

end ContractAudit.Report

/-! ## Findings

A finding says in words what is wrong, and points to what it is about. Its identity is a hash of these words, the same in
every run.
-/

namespace ContractAudit

inductive Severity where
  | high | medium | low | informational | optimization
  deriving DecidableEq

def Severity.label : Severity -> String
  | high => "High"
  | medium => "Medium"
  | low => "Low"
  | informational => "Informational"
  | optimization => "Optimization"

def Severity.rank : Severity -> Nat
  | high => 0
  | medium => 1
  | low => 2
  | informational => 3
  | optimization => 4

inductive Subject where
  | declared (t : Target)
  | node (function : FunctionId) (node : NodeId)
  | pragma (i : Nat)
  | computed (name : String)

inductive Phrase where
  | text (s : String)
  | subject (s : Subject)

namespace Phrase

instance : Coe String Phrase := ⟨text⟩
instance : Coe Subject Phrase := ⟨subject⟩

abbrev contract (c : ContractId) : Phrase := subject (.declared (.contract c))
abbrev func (f : FunctionId) : Phrase := subject (.declared (.func f))
abbrev var (v : VariableId) : Phrase := subject (.declared (.var v))
abbrev node (f : FunctionId) (n : NodeId) : Phrase := subject (.node f n)
abbrev pragma (i : Nat) : Phrase := subject (.pragma i)

end Phrase

structure Finding where
  info : List Phrase
  more : List (Subject × List (String × Json)) := []
  places : List (String × Source) := []
  additional : List (String × Json) := []

structure Ancestor where
  kind : String
  name : String
  source : Source
  signature : Option String := none

structure Element where
  kind : String
  name : String
  source : Source
  lineage : Option (List Ancestor) := none
  signature : Option String := none
  directive : Option (List String) := none
  subject : Option Subject := none
  additional : List (String × Json) := []

structure Report where
  check : String
  impact : Severity
  confidence : Severity
  description : String
  markdown : String
  firstLink : String
  id : String
  elements : List Element
  additional : List (String × Json)
  patches : Table String (List Report.Patch) := []
  diffs : Option (Table String String) := none

namespace Subject

variable (p : Program) (s : Subject)

def nodeOf (f : FunctionId) (n : NodeId) : Node := (p.function f).flow.node n

def title : Subject -> String
  | declared (.contract c) => (p.contract c).name
  | declared t => p.targetCanonicalName t
  | node f n =>
    let n := nodeOf p f n
    match n.expr with
    | some e => p.exprText e
    | none => p.nodeText n
  | pragma i => (p.pragma i).version
  | computed name => name

/-- Things of the language stand nowhere. -/
def source? : Subject -> Option Source
  | declared (.imported i) => some (p.import_ i).source
  | declared t => p.targetSource? t
  | computed _ => none
  | node f n => some (nodeOf p f n).source
  | pragma i => some (p.pragma i).source

def source : Result Source := expect (s.source? p) (.lacks "NoneType" "to_markdown")

/-- Declarations count by their names, nodes and directives also by their places. -/
def identity : Result String := do
  let src <- s.source p
  match s with
  | node .. => return s.title p ++ " (" ++ p.sourceText src ++ ")"
  | pragma i => return (p.pragma i).render ++ " (" ++ p.sourceText src ++ ")"
  | declared _ | computed _ => return s.title p

def lineage : Subject -> List Ancestor
  | declared t => match t with
    | .var v => match (p.var v).kind with
      | .state c => [ofContract c]
      | .inFunction (some f) _ => ofFunction f
      | _ => []
    | .func f => (p.functionDeclarer? f).toList.map ofContract
    | .struct s => ofOwner (p.struct s).owner
    | .enum e => ofOwner (p.enum e).owner
    | .event e => ofOwner (p.event e).owner
    | .error e => ofOwner (p.error e).owner
    | _ => []
  | node f _ => ofFunction f
  | pragma _ | computed _ => []
where
  ofContract (c : ContractId) : Ancestor :=
    { kind := "contract", name := (p.contract c).name, source := (p.contract c).source }
  ofFunction (f : FunctionId) : List Ancestor :=
    { kind := "function", name := p.functionName f, source := (p.function f).source
      signature := some (p.functionFullName f) } :: (p.functionDeclarer? f).toList.map ofContract
  ofOwner : Owner -> List Ancestor
    | .contract c => [ofContract c]
    | .topLevel _ => []

def element (additional : List (String × Json)) : Result Element := do
  let src <- s.source p
  match s with
  | declared t =>
    let belongs := some (s.lineage p)
    match t with
    | .var v =>
      return { kind := "variable", name := (p.var v).name, source := src, lineage := belongs, subject := some s
               additional }
    | .contract c => return { kind := "contract", name := (p.contract c).name, source := src, additional }
    | .func f =>
      return { kind := "function", name := p.functionName f, source := src, lineage := belongs
               signature := some (p.functionFullName f), additional }
    | .enum e => return { kind := "enum", name := (p.enum e).name, source := src, lineage := belongs, additional }
    | .struct x => return { kind := "struct", name := (p.struct x).name, source := src, lineage := belongs, additional }
    | .event e =>
      return { kind := "event", name := (p.event e).name, source := src, lineage := belongs
               signature := some (p.eventFullName e), additional }
    | .error e =>
      return { kind := "custom_error", name := (p.error e).name, source := src, lineage := belongs
               signature := (p.error e).fullName, additional }
    | _ => throw (.fatal "Impossible to add to the json")
  | computed _ => throw (.fatal "Impossible to add to the json")
  | node f n =>
    let name := ((nodeOf p f n).expr.map p.exprText).getD ""
    return { kind := "node", name, source := src, lineage := some (s.lineage p), additional }
  | pragma i =>
    let x := p.pragma i
    return { kind := "pragma", name := x.version, source := src, directive := some x.literals, additional }

end Subject

namespace Phrase

def describe (p : Program) : Phrase -> Result String
  | text s => .ok s
  | subject s => do return s.title p ++ " (" ++ p.sourceText (<- s.source p) ++ ")"

def markdown (p : Program) (root : String) : Phrase -> Result String
  | text s => .ok s
  | subject s => do return "[" ++ s.title p ++ "](" ++ (<- s.source p).markdown p.lineMark root ++ ")"

def identity (p : Program) : Phrase -> Result String
  | text s => .ok s
  | subject s => s.identity p

def subject? : Phrase -> Option Subject
  | subject s => some s
  | text _ => none

end Phrase

/-- `isWhole` says that all that the words point to is listed, too. -/
def Finding.report (p : Program) (root : String) (isWhole : Bool) (check : String) (impact confidence : Severity)
    (x : Finding) : Result Report := do
  let description := String.join (<- x.info.mapM (Phrase.describe p))
  let markdown := String.join (<- x.info.mapM (Phrase.markdown p root))
  let identity := String.join (<- x.info.mapM (Phrase.identity p))
  let listed := if isWhole then (x.info.filterMap Phrase.subject?).map fun s => (s, []) else []
  let subjects := listed ++ x.more
  let elements <- subjects.mapM fun (s, fields) => s.element p fields
  let links <- (subjects.take 1).mapM fun (s, _) => (s.source p).map (·.markdown p.lineMark root)
  let places := x.places.map fun (name, source) => { kind := "other", name, source : Element }
  return { check, impact, confidence, description, markdown, firstLink := links.headD "", additional := x.additional
           elements := elements ++ places, id := Hash.bytesToHex (Hash.sha3 identity.toUTF8) }

end ContractAudit
