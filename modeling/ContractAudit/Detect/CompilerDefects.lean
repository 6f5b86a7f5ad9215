import ContractAudit.Detect.Basic

/-! # Code that runs into defects of compilers -/

namespace ContractAudit.Detect

open Ir Analysis Detector

variable (p : Program) (a : Analysis) (c : ContractId) (v : Value)

def takesArrayByValue (v : VariableId) : Bool :=
  ((p.var v).type matches some (.array _ _)) && (p.var v).location != some "storage"

def arrayWriters : List FunctionId :=
  let p := a.program
  p.allDeclared.filter fun f =>
    (p.function f).kind != .constructor &&
      (p.function f).parameters.any fun v => takesArrayByValue p v && (a.variablesWritten f).any (·.same (.var v))

def storedArray? : Value -> Option VariableId
  | .target (.var v) =>
    let x := p.var v
    let isArray := x.type matches some (.array _ _)
    if isArray && (p.isStateVariable v || (p.isLocalVariable v && x.location == some "storage")) then some v else none
  | _ => none

def argumentsOf : Op -> List Value
  | .call c => c.arguments
  | _ => []

def arrayByReference : Detector :=
  .plain "array-by-reference" .high .high "Modifying storage array by value"
    ("Ensure the correct usage of `memory` and `storage` in the function parameters. Make all the " ++
      "locations explicit.") <| .inUnit fun p a =>
    let writers := arrayWriters a
    return p.allCode.flatMap fun f =>
      ((a.outwardCalls f).map (·.instr) ++ a.internalCalls f).flatMap fun i =>
        (calledFunction? i.op).elim [] fun g =>
          if writers.contains g then
            ((p.function g).parameters.zip (argumentsOf i.op)).filterMap fun (parameter, argument) =>
              (storedArray? p argument).bind fun v =>
                if takesArrayByValue p parameter then
                  some (.of [.func f, " passes array ", .var v, " by reference to ", .func g,
                    " which only takes arrays by value\n"])
                else none
          else []

def typingText : ValueTyping -> String
  | .one t => p.typeText t
  | .unknown => "None"
  | _ => ""

def enumConversion : Detector :=
  .inVersions (series 4 0 4) <|
  .plain "enum-conversion" .medium .high "Dangerous enum conversion"
    "Use a recent compiler version. If `solc` <`0.4.5` is required, check the `enum` conversion range." <|
    .inUnit fun p a => do
    let places := p.allDeclared.flatMap a.placedInstrs
    let found <- places.mapM fun x => do
      match x.instr.op with
      | .conversion _ v (.enum _) =>
        let node := .node x.function x.node
        let type := typingText p (<- p.typing a.store v)
        return [.of [node, " has a dangerous enum conversion\n", "\t- Variable: ", .value a v,
          s!" of type: {type}\n", "\t- Enum conversion: ", node, "\n"]]
      | _ => return []
    return found.flatten

def multipleConstructors : Detector :=
  .plain "multiple-constructors" .high .high "Multiple constructor schemes"
    ("Only declare one constructor, preferably using the new scheme `constructor(...)` instead of " ++
      "`function <contractName>(...)`.") <| .inUnit fun p _ =>
    return p.contracts.filterMap fun c =>
      let constructors := (p.declaredFunctions c).filter fun f => (p.function f).kind == .constructor
      if constructors.length ≤ 1 then none
      else some (.of [.contract c, " contains multiple constructors in the same contract:\n"]
        (Phrase.lines "\t- " (constructors.map fun f => .declared (.func f))))

def isNestedStruct : Ty -> Bool
  | .struct s => (p.struct s).members.values.any fun v => ((p.var v).type matches some (.struct _))
  | _ => false

def publicMappingNested : Detector :=
  .inVersions series4 <|
  .plain "public-mappings-nested" .high .high "Public mappings with nested variables"
    "Do not use public mapping with nested structures." <| .inUnit fun p _ =>
    let found := (p.contracts.flatMap p.declaredVariables).filter fun v =>
      (p.var v).visibility == some "public" && if let some (.mapping _ t) := (p.var v).type then isNestedStruct p t else false
    return found.map fun v => .of [.var v, " is a public mapping with nested variables\n"]

/-- The flag says that it is the constructor that calls. -/
def baseCallsOf : List (FunctionId × Bool) :=
  let byContract := if decide ("0.4.22" ≤ p.version) then (p.contract c).baseConstructors.filterMap p.constructor? else []
  let byConstructor := (p.declaredConstructor? c).elim [] fun f =>
    (p.function f).baseCalls.filterMap fun (m : ModifierUse) => match m.target with
      | .contract d => p.declaredConstructor? d
      | _ => none
  (byContract.map (·, false) ++ byConstructor.map (·, true)).filter fun (f, _) => !(p.function f).parameters.isEmpty

def baseCallTable : Table FunctionId (List (ContractId × Bool)) :=
  ((c :: (p.contract c).inheritance).eraseDups).foldl (fun t d =>
    (baseCallsOf p d).foldl (fun t (f, byConstructor) => t.alter f [] (· ++ [(d, byConstructor)])) t) []

def reusedBaseConstructor : Detector :=
  .inVersions series4 <|
  .plain "reused-constructor" .medium .medium "Reused base constructors"
    "Remove the duplicate constructor call." <| .inUnit fun p _ =>
    return p.contracts.flatMap fun c =>
      ((baseCallTable p c).filter fun (_, calls) => calls.length > 1).map fun (f, calls) =>
        .of [.contract c, " gives base constructor ", .func f,
          " arguments more than once in inheritance hierarchy:\n"]
          (calls.flatMap fun (d, byConstructor) => [.text "\t- From ", .contract d,
            .text (" " ++ (if byConstructor then "constructor" else "contract") ++ " definition\n")])

def isStored : Value -> Bool
  | .target (.var v) => p.isStateVariable v || (p.isLocalVariable v && p.isStorageLocal v)
  | _ => false

def isCompositeArray : Result Bool := do
  if let .one (.array t _) <- a.program.typing a.store v then return isStored a.program v && (t.isArray || t.isDeclared)
    else return false

def encodedArguments : Op -> List Value
  | .call c => match c.kind with
    | .builtin (.builtinFunction "abi.encode()") | .event _ | .highLevel .. | .library .. => Value.flatAll c.arguments
    | _ => []
  | _ => []

def encoderArrays : Detector :=
  .inVersions (series 4 7 25 ++ series 5 0 9) <|
  .plain "abiencoderv2-array" .high .high "Storage ABIEncoderV2 Array"
    "Use a compiler >= `0.5.10`." <| .inUnit fun p a => do
    let isOn := p.pragmaTable.toList.any fun x => x.literals.take 2 == ["experimental", "ABIEncoderV2"]
    if !isOn then return []
    let found <- p.allCode.mapM fun f => do
      let nodes <- (a.nodeIds f).filterM fun n =>
        (a.instrs f n).anyM fun i => (encodedArguments i.op).anyM (isCompositeArray a)
      return nodes.map fun n => .of ["Function ", .func f, " trigger an abi encoding bug:\n\t- ", .node f n, "\n"]
    return found.flatten

def madeOfElementary? : ValueTyping -> Result (Option Elementary)
  | .one (.elementary _) => return none
  | t => do if let .type (.elementary e) <- madeOf p t then return some e else return none

def isSignedStorage : Result Bool := do
  if !isStored a.program v then return false
  return (<- madeOfElementary? a.program (<- a.program.typing a.store v)) matches some (.int _)

def setsSignedArray : Op -> Result Bool
  | .initArray r _ => isSignedStorage a r
  | .assign r v => do
    let p := a.program
    let type <- p.typing a.store r
    if !type.isArray then return false
    if !(<- isSignedStorage a r) then return false
    return (<- madeOfElementary? p type) != (<- madeOfElementary? p (<- p.typing a.store v))
  | _ => return false

def signedStorageArrays : Detector :=
  .inVersions (series 4 7 25 ++ series 5 0 9) <|
  .plain "storage-array" .high .medium "Storage Signed Integer Array"
    "Use a compiler version >= `0.5.10`." <| .inUnit fun p a => do
    let found <- p.contracts.mapM fun c => (p.declaredCode c).mapM fun f => do
      let nodes <- ((a.nodeIds f).filter fun n => (a.flow f).kind n == .expression).filterM fun n =>
        (a.instrs f n).anyM (setsSignedArray a ·.op)
      return nodes.map fun n => .of ["Contract ", .contract c, " \n", "\t- Function ", .func f, "\n", "\t\t- ",
        .node f n, " has a storage signed integer array assignment\n"]
    return found.flatten.flatten

def valueIndex (s : Store) : Value -> Option Nat
  | .version i => some (s.version i).index
  | .reference i | .versionReference i | .temporary i | .tuple i => some i
  | _ => none

def callsUnset (atEntry : List Value) : Op -> Bool
  | .call { kind := .dynamic v _, .. } =>
    let destination := (a.store.origin v).getD .absent
    let isComputed := destination matches .version _ | .temporary _ | .tuple _ | .constant _
    (isComputed && valueIndex a.store v == some 0) || atEntry.any destination.same
  | _ => false

def unsetFunctionPointers : Detector :=
  .inVersions (series 4 5 25 ++ series 5 0 8) <|
  .plain "uninitialized-fptr-cst" .low .high "Uninitialized function pointers in constructors"
    "Initialize function pointers before calling. Avoid function pointers if possible." <| .inUnit fun p a =>
    return p.contracts.flatMap fun c =>
      (p.declaredConstructor? c).elim [] fun f =>
        let atEntry := (a.flow f).entry.elim [] fun n => (a.ssa f n).filterMap (·.op.lvalue?)
        let nodes := (a.nodeIds f).filter fun n => (a.ssa f n).any (callsUnset a atEntry ·.op)
        nodes.map fun n => .of ["Contract ", .contract c, " \n", "\t ", .node f n,
          " is an unintialized function pointer call in a constructor\n"]

end ContractAudit.Detect
