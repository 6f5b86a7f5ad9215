import ContractAudit.Analysis.Summary
import ContractAudit.Program.Occurrence

/-! # Views

Names and places that do not depend on the order in which programs were read.
-/

namespace ContractAudit.View

open Table

def labelled (p : Program) : List (String × FunctionId) :=
  p.contracts.flatMap (fun c =>
    let x := p.contract c
    (x.functions.values ++ x.modifiers.values).map fun f => (x.name ++ ":" ++ p.functionCanonicalName f, f))
  ++ p.functions.map fun f => (":" ++ p.functionCanonicalName f, f)

section

open Ir

variable (a : Analysis)

/-- Versions with the label of the function that writes them and their number there. -/
abbrev Numbers := Table Nat (String × Nat)

def numberVersions : Numbers :=
  (labelled a.program).foldl (fun known (label, f) =>
    let written := (a.nodeIds f).flatMap fun n => (a.ssa f n).filterMap fun i =>
      if let some (.version v) := i.op.lvalue?.bind a.store.origin then some v else none
    (written.foldl (fun (known, counts) v =>
      if known.has v then (known, counts)
      else
        let x := a.store.version v
        let name := (if x.standIn then "STORAGE_" else "") ++ a.program.variableCanonicalName x.variable_
        let number := (find? name counts).getD 0 + 1
        (insert v (label, number) known, insert name number counts))
      (known, ([] : Table String Nat))).1) []

variable (known : Numbers) (label : String)

def versionText (v : Nat) : String :=
  let x := a.store.version v
  let mark := (known.find? v).elim (if x.index == 0 then "0" else "x") fun (l, number) =>
    toString number ++ (if l == label then "" else "@" ++ l)
  a.program.versionName x ++ "_" ++ mark ++ a.program.referredText a.store Text.sort x

def versionTexts (f : FunctionId) (n : NodeId) : List String :=
  let o : OpStyle :=
    { program := a.program, store := a.store, checked := ((a.flow f).node n).checked
      name := fun
        | .version v => versionText a known label v
        | v => a.program.valueText a.store v }
  (a.ssa f n).map fun i => match i.op with
    | .phi r vs _ | .phiCallback r vs _ _ => s!"Phi {o.typed r} := {Text.quotedList (Text.sort (vs.map o.name))}"
    | op => op.kindName ++ " " ++ o.text op

end

def placeLe (s t : Source) : Bool :=
  if s.file.short != t.file.short then decide (s.file.short ≤ t.file.short)
  else if s.start != t.start then decide (s.start ≤ t.start) else decide (s.length ≤ t.length)

/-- Definitions, references and implementations of what stands at offsets of a file that is given by one of its names, and
the names of what is declared. -/
def placesAt (all : List Program) (path : String) (offsets : List Int) :
    List (Int × List (Result (List Source)) × Result (List String)) :=
  let names := all.flatMap fun p => p.files.map (·.name)
  let file := (names.find? fun n => n.short == path || n.absolute == path).getD ⟨path, path⟩
  let found := Occurrence.ofPrograms all
  offsets.map fun offset =>
    let at_ : Result (List (Program × Occurrence)) := do
      let os <- found
      if offset < 0 then throw (.badIndex s!"Unable to find reference for offset {offset}")
      return os
    (offset, [Occurrence.definitionsAt, Occurrence.referencesAt, Occurrence.implementationsAt].map fun f => do
      return (<- f ((<- at_).map (·.2)) file offset.toNat).mergeSort placeLe, do
      return (<- Occurrence.entriesAt (<- at_) file offset.toNat).filterMap fun (p, e) => match e with
        | .declared t => some (p.targetCanonicalName t)
        | _ => none)

end ContractAudit.View
