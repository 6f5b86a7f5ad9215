import ContractAudit.Analysis.Dependency
import ContractAudit.Repair

/-! # Detectors

A rule that looks for a kind of defect, with what is said about its findings.
-/

namespace ContractAudit

open Ir

inductive Rule where
  | inUnit (find : Program -> Analysis -> Result (List Finding))
  | asking (find : Analyze (List Finding))
  | among (find : List Analysis -> Analysis -> Result (List Finding))

structure Detector where
  name : String
  impact : Severity
  confidence : Severity
  title : String
  recommendation : String
  versions : Option (List String) := none
  language : Option Language := none
  isWhole : Bool := true
  rule : Rule
  repair : Report -> Repair Unit := fun _ => pure ()

namespace Detector

/-- A detector for every version, without repairs. -/
def plain (name : String) (impact confidence : Severity) (title recommendation : String) (rule : Rule) : Detector :=
  { name, impact, confidence, title, recommendation, rule }

def inVersions (versions : List String) (d : Detector) : Detector := { d with versions := some versions }

def forSolidity (d : Detector) : Detector := { d with language := some .solidity }

def inParts (d : Detector) : Detector := { d with isWhole := false }

def repairedBy (repair : Report -> Repair Unit) (d : Detector) : Detector := { d with repair }

def isApplicable (d : Detector) (p : Program) : Bool :=
  match d.versions, d.language with
  | some versions, _ => p.language == .solidity && versions.contains p.version
  | none, some language => p.language == language
  | none, none => true

def find (d : Detector) (all : List Analysis) (a : Analysis) : Result (List Finding) × Analysis :=
  if !d.isApplicable a.program then (.ok [], a)
  else match d.rule with
    | .inUnit find => (find a.program a, a)
    | .among find => (find all a, a)
    | .asking find => match find.run a with
      | .ok found a => (.ok found, a)
      | .error fault a => (.error fault, a)

def series (minor first last : Nat) : List String := (List.range (last + 1 - first)).map fun i => s!"0.{minor}.{first + i}"

def series4 : List String := series 4 0 26
def series5 : List String := series 5 0 17

end Detector

def Subject.ofValue (a : Analysis) : Value -> Subject
  | .target t => .declared t
  | v => .computed (a.program.valueText a.store v)

def Phrase.value (a : Analysis) (v : Value) : Phrase := .subject (.ofValue a v)

def Phrase.lines (mark : String) (things : List Subject) : List Phrase :=
  things.flatMap fun x => [.text mark, .subject x, .text "\n"]

def Finding.of (head : List Phrase) (body : List Phrase := []) (tail : List Phrase := []) : Finding :=
  { info := head ++ body ++ tail }

def Finding.ofNodes (head : List Phrase) (f : FunctionId) (nodes : List NodeId) : Finding :=
  of head (Phrase.lines "\t- " (nodes.map (.node f)))

/-- A finding for each of the things of which something is found. -/
def findEach {m : Type -> Type} [Monad m] {α β : Type} (xs : List α) (find : α -> m (List β)) (tell : α -> List β -> Finding) :
    m (List Finding) :=
  xs.filterMapM fun x => do
    let found <- find x
    return if found.isEmpty then none else some (tell x found)

namespace Analysis

def innerCallee? : Op -> Option FunctionId
  | .call { kind := .internal g _ _, .. } => g
  | .call { kind := .library _ _ (some (.func g)), .. } => some g
  | _ => none

def calledName (p : Program) : Op -> String
  | .call { kind := .internal (some g) _ _, .. } => p.functionName g
  | .call { kind := .internal none name _, .. } => name
  | .call { kind := .library _ name _, .. } => name.render
  | .call { kind := .highLevel _ name _, .. } => name.render
  | .call { kind := .lowLevel _ name, .. } => name.render
  | _ => ""

def sortPlaces (p : Program) (places : List Place) : List Subject :=
  (places.mergeSort fun (f, m) (g, n) =>
    decide (m < n) || (m == n && decide (p.functionFullName f ≤ p.functionFullName g))).map fun (f, n) => .node f n

def contractFunctions (p : Program) : List FunctionId :=
  (p.contracts.filter fun c => !(p.contract c).isLibrary).flatMap p.declaredFunctions

def perFunction (fs : List FunctionId) (nodes : FunctionId -> Result (List NodeId)) (words : String) : Result (List Finding) :=
  findEach fs nodes fun f => .ofNodes [.func f, words] f

end Analysis

end ContractAudit
