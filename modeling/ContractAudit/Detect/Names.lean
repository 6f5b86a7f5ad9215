import ContractAudit.Detect.Basic
import ContractAudit.Naming

/-! # Names and characters of the source -/

namespace ContractAudit.Detect

open Ir Text Naming

structure Misnomer where
  kind : String
  declared : Target
  complaint : String
  target : String
  convention : String

def Misnomer.unlike (kind : String) (declared : Target) (target convention : String) : Misnomer :=
  ⟨kind, declared, s!" is not in {convention}\n", target, convention⟩

def Misnomer.finding (m : Misnomer) : Finding :=
  { info := [m.kind ++ " ", .subject (.declared m.declared), m.complaint]
    more := [(.declared m.declared, [("target", .str m.target), ("convention", .str m.convention)])] }

/-- The parameters that it uses are named without an underscore before them. -/
def functionMisnomers (a : Analysis) (f : FunctionId) : List Misnomer :=
  let p := a.program
  let name := p.functionName f
  let isInner := (p.function f).visibility == some "internal" || (p.function f).visibility == some "private"
  let isFine := isMixedCase name || (isInner && isMixedCaseWithUnderscore name)
    || startsWith name "echidna_" || startsWith name "crytic_"
  let used := a.variablesWritten f ++ a.variablesRead f
  let parameters := (p.function f).parameters.filter fun v =>
    let name := (p.var v).name
    name != "" && !(if used.any (·.same (.var v)) then isMixedCase name else isMixedCaseWithUnderscore name)
  (if isFine then [] else [.unlike "Function" (.func f) "function" "mixedCase"])
    ++ parameters.map fun v => .unlike "Parameter" (.var v) "parameter" "mixedCase"

def variableMisnomers (p : Program) (v : VariableId) : List Misnomer :=
  let x := p.var v
  let isInner := x.visibility == some "internal" || x.visibility == some "private"
  let isFine := if isInner then
      isMixedCaseWithUnderscore x.name || isStateName x.name || (x.isImmutable && isImmutableName x.name)
    else isMixedCase x.name
  (if isAmbiguous x.name then
    [⟨"Variable", .var v, " is single letter l, O, or I, which should not be used\n", "variable", "l_O_I_should_not_be_used"⟩]
    else []) ++
  (if x.isConstant then
    if ["symbol", "name", "decimals"].contains x.name || x.visibility == some "public"
      || isUpperCaseWithUnderscores x.name then []
    else [.unlike "Constant" (.var v) "variable_constant" "UPPER_CASE_WITH_UNDERSCORES"]
  else if isFine then [] else [.unlike "Variable" (.var v) "variable" "mixedCase"])

def contractMisnomers (a : Analysis) (c : ContractId) : List Misnomer :=
  let p := a.program
  let capitalized (kind target : String) (t : Target) (name : String) : List Misnomer :=
    if isCapWords name then [] else [.unlike kind t target "CapWords"]
  capitalized "Contract" "contract" (.contract c) (p.contract c).name
    ++ (p.declaredStructs c).flatMap (fun s => capitalized "Struct" "structure" (.struct s) (p.struct s).name)
    ++ (p.declaredEvents c).flatMap (fun e => capitalized "Event" "event" (.event e) (p.event e).name)
    ++ ((p.declaredFunctions c).filter fun f => (p.function f).kind != .constructor).flatMap (functionMisnomers a)
    ++ (p.declaredVariables c).flatMap (variableMisnomers p)
    ++ (p.declaredEnums c).flatMap (fun e => capitalized "Enum" "enum" (.enum e) (p.enum e).name)
    ++ ((p.declaredModifiers c).filter fun m => !isMixedCase (p.functionName m)).map
      fun m => .unlike "Modifier" (.func m) "modifier" "mixedCase"

def namingConvention : Detector :=
  .forSolidity <| .inParts <| .repairedBy .renameAll <|
  .plain "naming-convention" .informational .high "Conformance to Solidity naming conventions"
    ("Follow the Solidity [naming " ++
      "convention](https://solidity.readthedocs.io/en/v0.4.25/style-guide.html#naming-conventions).") <|
    .inUnit fun p a => return (p.contracts.flatMap (contractMisnomers a)).map Misnomer.finding

def nameReused : Detector :=
  .plain "name-reused" .high .high "Name reused" "Rename the contract." <| .inUnit fun _ _ => return []

def overrideMark : List UInt8 := [0xe2, 0x80, 0xae]

/-- Places of the mark in bytes, each with its line as far as that comes after the place found before. `line` is what was read
of it, reversed. -/
def overridesFrom : Nat -> List UInt8 -> List UInt8 -> List (Nat × List UInt8)
  | _, _, [] => []
  | at_, line, b :: rest =>
    if overrideMark.isPrefixOf (b :: rest) then
      (at_, line.reverse ++ (b :: rest).takeWhile (· != 10)) :: overridesFrom (at_ + 1) [] rest
    else overridesFrom (at_ + 1) (if b == 10 then [] else b :: line) rest

/-- Of files with one name the last is taken. -/
def allFiles (units : List Analysis) : List SourceFile :=
  (Table.ofList ((units.flatMap (·.program.files)).map fun f => (f.name.absolute, f))).values

def rightToLeft : Detector :=
  .inParts <|
  .plain "rtlo" .high .high "Right-to-Left-Override character"
    "Special control characters must not be allowed." <| .among fun units a => do
    return (allFiles units).flatMap fun file => (overridesFrom 0 [] file.text.toUTF8.toList).map fun (at_, line) =>
      let own := a.program.files.find? (·.name.absolute == file.name.absolute)
      let source : Source := own.elim { start := at_, length := 3 } fun f => .ofRange f at_ 3
      let text := s!"{file.name.short} contains a unicode right-to-left-override character at byte offset {at_}:\n\t- "
      { info := [text ++ Text.quotedBytes line ++ "\n"]
        places := [("rtlo-character", source)] }

/-! ## Shadowing -/

section

variable (p : Program) (c : ContractId) (f : FunctionId) (v : VariableId)

/-- The last variable of its contract, a private array of words with a name that is agreed on. -/
def isGap : Bool :=
  let x := p.var v
  let declared := (p.contract c).variablesOrdered.filter (p.declaredVariables c).contains
  x.name == "__gap" && declared.getLast? == some v && x.visibility == some "private" && match x.type with
    | some (.array (.elementary t) _) => t == .uint 256
    | _ => false

/-- State variables with the names of variables of contracts it inherits from. -/
def hiddenVariables (counts : ContractId -> Bool) (c : ContractId) :
    List (VariableId × List VariableId) :=
  let inherited := ((p.contract c).inheritance.filter counts).flatMap p.declaredVariables
  let found := ((p.declaredVariables c).filter (!isGap p c ·)).map fun v =>
    (v, inherited.filter fun w => (p.var w).name == (p.var v).name)
  found.filter (!·.2.isEmpty)

def hasBody : Bool := (p.functionsOf c ++ p.modifiersOf c).any fun f => (p.function f).implemented == some true

def hidingFindings (counts : ContractId -> Bool) : List Finding :=
  (p.contracts.flatMap (hiddenVariables p counts)).map fun (v, hidden) =>
    .of [.var v, " shadows:\n"] (Phrase.lines "\t- " (hidden.map fun w => .declared (.var w)))

def shadowingAbstract : Detector :=
  .plain "shadowing-abstract" .medium .high "State variable shadowing from abstract contracts"
    "Remove the state variable shadowing." <|
    .inUnit fun p a => return hidingFindings p (!hasBody p ·)

def shadowingState : Detector :=
  .plain "shadowing-state" .high .high "State variable shadowing"
    "Remove the state variable shadowing." <| .inUnit fun p a => return hidingFindings p (hasBody p)

def builtinNames : List String :=
  ["assert", "require", "revert", "block", "blockhash", "gasleft", "msg", "now", "tx", "this", "addmod", "mulmod",
    "keccak256", "sha256", "sha3", "ripemd160", "ecrecover", "selfdestruct", "suicide", "abi", "fallback", "receive"]

def isTaken (name : String) : Bool := builtinNames.contains name || Repair.reservedWords.contains name

def takenLocals : List (String × Target) :=
  ((p.function f).vars.values.filter fun v => isTaken (p.var v).name).map fun v => ("local variable", .var v)

def takenNames : List (String × Target) :=
  let ofFunction (f : FunctionId) : List (String × Target) :=
    if !isTaken (p.functionName f) then takenLocals p f
    else if p.isFallback f || (p.function f).kind == .receive then []
    else ("function", .func f) :: takenLocals p f
  let ofModifier (m : FunctionId) : List (String × Target) :=
    (if isTaken (p.functionName m) then [("modifier", .func m)] else []) ++ takenLocals p m
  (p.declaredFunctions c).flatMap ofFunction ++ (p.declaredModifiers c).flatMap ofModifier
    ++ ((p.declaredVariables c).filter fun v => isTaken (p.var v).name).map (fun v => ("state variable", .var v))
    ++ ((p.declaredEvents c).filter fun e => isTaken (p.event e).name).map fun e => ("event", .event e)

def shadowingBuiltin : Detector :=
  .plain "shadowing-builtin" .low .high "Builtin Symbol Shadowing"
    ("Rename the local variables, state variables, functions, modifiers, and events that shadow a builtin " ++
      "symbol.") <| .inUnit fun p a => return (p.contracts.flatMap (takenNames p)).map fun (kind, t) =>
    { info := [.subject (.declared t), " (" ++ kind ++ ") shadows built-in symbol\"\n"] }

def hiddenResults (name : String) : List (String × Target) :=
  if !contains name "_scope_" then []
  else
    let plain := (splitOn name "_scope_").headD ""
    ((p.function f).returns.filter fun v => (p.var v).name == plain).map fun v => ("return variable", .var v)

def declaredNamed (name : String) : List (String × Target) :=
  ((p.declaredFunctions c).filter (p.functionName · == name)).map (fun f => ("function", .func f))
    ++ ((p.declaredModifiers c).filter (p.functionName · == name)).map (fun m => ("modifier", .func m))
    ++ ((p.declaredEvents c).filter fun e => (p.event e).name == name).map (fun e => ("event", .event e))
    ++ ((p.declaredVariables c).filter fun v => (p.var v).name == name).map fun v => ("state variable", .var v)

def hiddenByLocal : List (String × Target) :=
  let name := (p.var v).name
  (c :: (p.contract c).inheritance).flatMap (declaredNamed p · name ++ hiddenResults p f name)

def shadowingLocal : Detector :=
  .plain "shadowing-local" .low .high "Local variable shadowing"
    "Rename the local variables that shadow another component." <| .inUnit fun p _ =>
    p.contracts.flatMapM fun c => (p.declaredCode c).flatMapM fun f =>
      findEach (p.function f).vars.values (.ok <| hiddenByLocal p c f ·) fun v hidden =>
      .of [.var v, " shadows:\n"] (hidden.flatMap fun (kind, t) => ["\t- ", .subject (.declared t), s!" ({kind})\n"])

end

end ContractAudit.Detect
