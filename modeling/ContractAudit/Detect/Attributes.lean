import ContractAudit.Analysis.Kinds
import ContractAudit.Detect.Basic
import ContractAudit.Program.Occurrence

/-! # Defects of declarations as a whole -/

namespace ContractAudit.Detect

open Ir Analysis Detector

section

variable (p : Program) (a : Analysis) (c : ContractId) (f : FunctionId)

def constantFunctions : List (FunctionId × String) :=
  (p.allDeclared.filter fun f => (p.function f).view || (p.function f).pure).map fun f =>
    (f, if (p.function f).view then "view" else "pure")

def constantFunctionsAssembly : Detector :=
  .inVersions series4 <| .repairedBy .removeSpecifier <|
  .plain "constant-function-asm" .medium .medium "Constant functions using assembly code"
    "Ensure the attributes of contracts compiled prior to Solidity 0.5.0 are correct." <| .inUnit fun p a =>
    let found := (constantFunctions p).filter fun (f, _) => (p.function f).containsAssembly
    return found.map fun (f, kind) =>
      { info := [.func f, s!" is declared {kind} but contains assembly code\n"]
        additional := [("contains_assembly", .bool true)] }

def constantFunctionsState : Detector :=
  .inVersions series4 <| .repairedBy .removeSpecifier <|
  .plain "constant-function-state" .medium .medium "Constant functions changing the state"
    "Ensure that attributes of contracts compiled prior to Solidity 0.5.0 are correct." <| .inUnit fun p a =>
    findEach (constantFunctions p) (fun (f, _) => .ok (a.allStateWritten f)) fun (f, kind) written =>
      { Finding.of [.func f, s!" is declared {kind} but changes state variables:\n"]
          (Phrase.lines "\t- " (written.map fun v => .declared (.var v))) with
        additional := [("contains_assembly", .bool false)] }

def directivesByVersion : Table String (List Nat) :=
  p.pragmaTable.toList.zipIdx.foldl (fun t (x, i) => if x.isVersion then t.alter x.version [] (· ++ [i]) else t) []

def differentPragmas : Detector :=
  .repairedBy .replaceDirectives <|
  .plain "pragma" .informational .high "Different pragma directives are used"
    "Use one Solidity version." <| .inUnit fun p a =>
    let versions := directivesByVersion p
    if versions.length ≤ 1 then return []
    else
      let body := versions.flatMap fun (version, directives) =>
        Phrase.text s!"\t- Version constraint {version} is used by:\n" :: Phrase.lines "\t\t-" (directives.map .pragma)
      return [.of [s!"{versions.length} different versions of Solidity are used:\n"] body]

def badDirectives : Table String (String × List Nat) :=
  p.pragmaTable.toList.zipIdx.foldl (fun t (x, i) =>
    if x.literals.head? != some "solidity" then t
    else (Pragma.complaint? x.version).elim t fun reason => t.alter x.version (reason, []) (fun (r, is) => (r, is ++ [i]))) []

def versionNumbers (version : String) : Result (List Int) :=
  (Text.splitOn version ".").mapM fun s => match Number.decimal? s with
    | some i => .ok i
    | none => .error (.badValue s!"invalid literal for int() with base 10: {Text.quoted s}")

def incorrectCompiler : Detector :=
  .forSolidity <| .repairedBy .replaceVersions <|
  .plain "solc-version" .informational .high "Incorrect versions of Solidity"
    ("\nDeploy with a recent version of Solidity (at least 0.8.0) with no known severe issues.\n\nUse a " ++
      "simple pragma version that allows any of these versions.\nConsider using the latest version of " ++
      "Solidity for testing.") <| .inUnit fun p a => do
    let found := (badDirectives p).map fun (version, reason, directives) =>
      .of [s!"Version constraint {version} {reason}.\nIt is used by:\n"] (Phrase.lines "\t- " (directives.map .pragma))
    let numbers <- versionNumbers p.version
    let old : List Finding := if decide (numbers < [0, 8, 0]) then
      [.of ["solc-", p.version, " ",
        "is an outdated solc version. Use a more recent version (at least 0.8.0), if possible.", "\n"]]
      else []
    return found ++ old

def isNonZero : Option Value -> Bool
  | some (.constant c) => !c.value.same (.int 0)
  | some _ => true
  | none => false

def sendingInstructions : List String :=
  ["delegatecall(uint256,uint256,uint256,uint256,uint256,uint256)",
    "callcode(uint256,uint256,uint256,uint256,uint256,uint256,uint256)",
    "call(uint256,uint256,uint256,uint256,uint256,uint256,uint256)"]

def sentValue? (c : Call) : Option Value :=
  match c.kind with
  | .send _ v | .transfer _ v => some v
  | .highLevel .. | .library .. | .lowLevel .. | .newContract _ => c.value
  | _ => none

def sendsOut : Op -> Bool
  | .call c =>
    isNonZero (sentValue? c) ||
      match c.kind with
      | .lowLevel _ name => ["delegatecall", "callcode"].contains name.render
      | .builtin (.builtinFunction name) => sendingInstructions.contains name && isNonZero c.arguments[2]?
      | _ => false
  | _ => false

def letsValueOut : Bool :=
  ((a.internalCalls f).any fun i => (callee? i.op).any fun t =>
    ["suicide(address)", "selfdestruct(address)"].contains (a.program.targetText t)) ||
  (a.allInstrs f).any (sendsOut ·.op)

def innerCallees : List FunctionId := (a.allInstrs f).filterMap (innerCallee? ·.op)

def keepsValue : Bool :=
  let start := a.contractCode c
  let bound := a.callBound (innerCallees a) + start.length
  !(Search.reach (innerCallees a) bound start).any (letsValueOut a)

def lockedEther : Detector :=
  .plain "locked-ether" .medium .high "Contracts that lock Ether"
    "Remove the payable attribute or add a withdraw function." <| .inUnit fun p a =>
    return p.mostDerived.filterMap fun c =>
      let payable := (p.functionsOf c).filter fun f => (p.function f).payable
      if p.isSignatureOnly c || payable.isEmpty || !keepsValue a c then none
      else some (.of ["Contract locking ether found:\n", "\tContract ", .contract c, " has payable functions:\n"]
        (Phrase.lines "\t - " (payable.map fun f => .declared (.func f)))
        ["\tBut does not have a function to withdraw the ether\n"])

def entrySignatures : List String := (p.entryPoints c).map p.functionFullName

def isCovered (signatures : List String) : Bool := (entrySignatures p c).all signatures.contains

/-- Larger interfaces take the place of smaller ones; the flag says that it is covered. -/
def compareIntended (interface : ContractId) : List ContractId -> List ContractId × Bool
  | [] => ([], false)
  | other :: rest =>
    if isCovered p interface (entrySignatures p other) || (p.contract other).inheritance.contains interface then
      (other :: rest, true)
    else
      let (kept, covered) := compareIntended interface rest
      if isCovered p other (entrySignatures p interface) || (p.contract interface).inheritance.contains other then
        (kept, covered)
      else (other :: kept, covered)

def intendedInterfaces (interfaces : List ContractId) (c : ContractId) : List ContractId :=
  let signatures := entrySignatures p c
  let inherited := (p.contract c).inheritance
  if signatures.isEmpty then []
  else interfaces.foldl (fun intended i =>
    if inherited.contains i || !isCovered p i signatures || inherited.any fun b => isCovered p i (entrySignatures p b)
    then intended
    else
      let (kept, covered) := compareIntended p i intended
      if covered then kept else kept ++ [i]) []

def missingInheritance : Detector :=
  .plain "missing-inheritance" .informational .high "Missing inheritance"
    "Inherit from the missing interface or contract." <| .inUnit fun p _ =>
    let interfaces := p.contracts.filter fun c => p.isSignatureOnly c && (p.functionsOf c).any (!p.isInitial ·)
    return (p.mostDerived.filter (!interfaces.contains ·)).flatMap fun c =>
      (intendedInterfaces p interfaces c).map fun i => .of [.contract c, " should inherit from ", .contract i, "\n"]

end

/-! ## Directives that do nothing -/

section

variable (p : Program) (all : List Occurrence) (i : ScopeId)

def elementaryFits : Elementary -> Elementary -> Bool
  | .bool, .bool | .string, .string | .bytes, .bytes | .address, .address => true
  | .uint a, .uint b | .int a, .int b | .bytesN a, .bytesN b => a ≤ b
  | _, _ => false

def fits : Ty -> Ty -> Bool
  | .valueType a, .valueType b => (p.valueType a).underlying == (p.valueType b).underlying
  | .contract a, .contract b => a == b || (p.contract a).inheritance.contains b
  | .struct a, .struct b => (p.struct a).canonicalName == (p.struct b).canonicalName
  | .enum a, .enum b => (p.enum a).canonicalName == (p.enum b).canonicalName
  | .elementary a, .elementary b => elementaryFits a b
  | .mapping ka va, .mapping kb vb => p.sameType ka kb && p.sameType va vb
  | .array a _, .array b _ => fits a b
  | _, _ => false

def servesType (type : Ty) (library : ContractId) : Bool :=
  (p.functionsOf library).any fun f => match (p.function f).parameters with
    | [] => false
    | v :: _ => (p.var v).type.all (fits p type)

def incorrectUsingFor : Detector :=
  .plain "incorrect-using-for" .informational .high "Incorrect usage of using-for statement"
    ("Make sure that the libraries used in `using-for` statements have at least one function matching a " ++
      "type used in these statements. ") <| .inUnit fun p _ => do
    p.usings.flatMapM fun u => match (p.using_ u).table with
      | [] => throw .outOfRange
      | (none, _) :: _ => return []
      | (some type, items) :: _ => return items.filterMap fun
        | .library (.contract library) =>
          if servesType p type library then none
          else
            let head := s!"using-for statement at {p.sourceText (p.using_ u).source} is incorrect - no matching function for "
            some (.of [head ++ p.typeText type ++ " found in ", .contract library, ".\n"])
        | _ => none

def isContainer : Bool :=
  let s := p.scope i
  let isHere (owner : Owner) : Bool := match owner with
    | .topLevel j => i == j
    | .contract c => (p.contract c).scope == i
  !(s.contracts.values.any (fun c => (p.contract c).scope == i)
    || s.errors.any (fun e => isHere (p.error e).owner)
    || s.enums.values.any (fun e => isHere (p.enum e).owner)
    || s.functions.any (fun f => match (p.function f).place with
      | .topLevel j => i == j
      | .inContract _ d => (p.contract d).scope == i)
    || s.structs.values.any (fun x => isHere (p.struct x).owner)
    || s.valueTypes.values.any (fun t => (p.valueType t).source.file == s.file)
    || s.usings.any (fun u => (p.using_ u).scope == i)
    || s.vars.values.any fun v => if let .topLevel j := (p.var v).kind then i == j else false)

def isUsedIn (imported user : FileName) : Bool :=
  all.any fun o => (o.definition :: o.references).any (Occurrence.isIn imported) && o.references.any (Occurrence.isIn user)

def unusedImports : Result (List ImportId) :=
  (p.scope i).imports.filterM fun j => do
    let x := p.import_ j
    if x.scope != i || isContainer p i then return false
    (p.scopeNamed? x.filename).elim (return false) fun k =>
      return !isContainer p k && !isUsedIn all (p.scope k).file (p.scope i).file

def unusedImport : Detector :=
  .plain "unused-import" .informational .high "Unused Imports"
    "Remove the unused import. If the import is needed later, it can be added back." <| .among fun units _ => do
    let programs := units.map (·.program)
    let all := (<- Occurrence.ofPrograms programs).map (·.2)
    let found <- programs.mapM fun p => (List.range p.scopeTable.size).mapM fun i => do
      let unused <- (<- unusedImports p all i).mapM fun j => do
        let source := (p.import_ j).source
        return "\n\t-" ++ (<- p.textOf source) ++ " (" ++ p.sourceText source ++ ")" ++ "\n"
      if unused.isEmpty then return []
      let head := s!"The following unused import(s) in {(p.scope i).file.short} should be removed:"
      return [.of [head] (unused.map .text)]
    return found.flatten.flatten

end

end ContractAudit.Detect
