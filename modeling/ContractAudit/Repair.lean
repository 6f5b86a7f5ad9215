import ContractAudit.Analysis.Reentry
import ContractAudit.Pragma.Constraint
import ContractAudit.Report.Finding
import ContractAudit.Text.Diff
import ContractAudit.Text.Pattern
import ContractAudit.Text.Utf8

/-! # Repairs

The patches that would mend what a finding is about, also as a difference of texts unless they collide.
-/

namespace ContractAudit

open Text

inductive Refusal where
  | impossible
  | fault (f : Fault)

structure Repair.Bench where
  analysis : Analysis
  patches : Table String (List Report.Patch) := []

abbrev Repair := EStateM Refusal Repair.Bench

namespace Repair

variable (file : FileName)

variable {α : Type}

def fail (f : Fault) : Repair α := throw (.fault f)

def lifted : Result α -> Repair α
  | .ok x => return x
  | .error f => fail f

def unit : Repair Analysis := return (<- get).analysis

def program : Repair Program := return (<- get).analysis.program

def asked (x : Analysis -> Inquiry α) : Repair α := do
  let a <- unit
  match (x a).run a.memo with
  | .ok y memo =>
    modify fun b => { b with analysis := { b.analysis with memo } }
    return y
  | .error f _ => fail f

def bytesOf : Repair (List UInt8) := do
  return (<- lifted ((<- program).fileText file)).toUTF8.toList

def bytesIn (start stop : Nat) : Repair (List UInt8) := do return ((<- bytesOf file).take stop).drop start

def textIn (start stop : Nat) : Repair String := do lifted (ofUtf8 (<- bytesIn file start stop))

/-- Adds a patch. The same patch counts once. -/
def replace (start stop : Int) (old new : String) : Repair Unit :=
  modify fun b => { b with patches := b.patches.alter file.absolute [] (addNew ⟨start, stop, old, new⟩) }

def scopeOf : Repair FileScope := do
  return ((<- program).scopeTable.toList.find? (·.file.absolute == file.absolute)).getD { file := file }

def seatIn (scope : FileScope) (name : String) : Repair (Option Seat) := do
  let a <- unit
  return (scope.contracts.find? name).map fun c => ⟨a, c⟩

def parentName (e : Element) : Repair String :=
  match e.lineage with
  | some (x :: _) => return x.name
  | some [] => fail (.badType "'NoneType' object is not subscriptable")
  | none => fail (.missing "parent")

end Repair

namespace Report

def diffOf? (p : Program) (file : String) (ps : List Patch) : Result (Option String) := do
  let f <- expect (p.files.find? fun f => f.name.absolute == file) (.missing file)
  let some bytes := Patch.patched? ps f.text.toUTF8.toList | return none
  let name := if startsWith f.name.short "/" then f.name.short else "./" ++ f.name.short
  let new <- ofUtf8 bytes
  return some ("\n".intercalate (Text.Diff.unified name (lines f.text) (lines new)) ++ "\n")

def withPatches (r : Report) (p : Program) (patches : Table String (List Patch)) : Result Report := do
  if patches.isEmpty then return r
  let diffs <- patches.filterMapM fun (file, ps) => do return (<- diffOf? p file ps).map fun d => (file, d)
  return { r with patches := patches.map fun (file, ps) => (file, Patch.inOrder ps), diffs := some diffs }

/-- Without a way to mend it, the patches made before that was clear remain. -/
def repaired (r : Report) (repair : Repair Unit) (a : Analysis) : Result Report × Analysis :=
  match repair.run { analysis := a } with
  | .ok _ b => (r.withPatches b.analysis.program b.patches, b.analysis)
  | .error .impossible b => (.ok { r with patches := b.patches }, b.analysis)
  | .error (.fault f) b => (.error f, b.analysis)

def repairedAll (repair : Report -> Repair Unit) : List Report -> Analysis -> Result (List Report) × Analysis
  | [], a => (.ok [], a)
  | r :: rest, a =>
    match r.repaired (repair r) a with
    | (.error f, a) => (.error f, a)
    | (.ok r, a) =>
      let (rest, a) := repairedAll repair rest a
      (rest.map (r :: ·), a)

end Report

namespace Repair

open Text

/-! ## Repairs of declarations -/

section

variable (r : Report)

def placeOf (s : Option Source) : Repair Source := s.elim (fail (.lacks "NoneType" "start")) pure

/-- As each file sees them. Contracts and functions go by their names. -/
def forFunctions (isMeant : Element -> Bool) (mend : Element -> FunctionId -> Repair Unit) : Repair Unit := do
  for scope in (<- program).scopeTable do
    for e in r.elements do
      if isMeant e then
        let name <- parentName e
        if let some seat <- seatIn scope name then
          let some signature := e.signature | fail (.missing "signature")
          if let some f := seat.functionByFullName? signature then mend e f

def firstOf? (words : List String) (s : String) : Option (Nat × String) :=
  (List.range s.length).findSome? fun i => (words.find? fun w => startsWith (drop i s) w).map fun w => (i, w)

def removeSpecifier : Repair Unit :=
  forFunctions r (·.kind == "function") fun e f => do
    let x := (<- program).function f
    let parameters <- placeOf x.parametersSource
    let returns <- placeOf x.returnsSource
    let start := parameters.start + parameters.length
    match firstOf? ["view", "pure", "constant"] (<- textIn e.source.file start returns.start) with
    | some (i, word) => replace e.source.file (start + i) (start + i + word.length) word ""
    | none => fail (.formatting "No view/pure/constant specifier exists. Regex failed to remove specifier!")

def makeExternal : Repair Unit :=
  forFunctions r (fun _ => true) fun _ f => do
    let x := (<- program).function f
    let _ <- placeOf x.parametersSource
    let _ <- placeOf x.returnsSource
    fail (.lacks "FileScope" "core")

def directiveFor? (fives : List Char) (version : Pragma.Pinned) : Option String :=
  (".".intercalate version.numbers).toList[2]?.bind fun c =>
    if c == '4' then some "pragma solidity ^0.4.25;"
    else if fives.contains c then some "pragma solidity ^0.5.3;"
    else none

/-- With one version, as it says, with two, as the second says. `none` stands for a version that is not known. -/
def replacement? (versions : List Pragma.Pinned) : Option String :=
  match versions with
  | [v] => directiveFor? ['5'] v
  | [_, v] => directiveFor? ['5', '6'] v
  | _ => none

def versionsIn (e : Element) : Repair (List Pragma.Pinned) := do
  let some directive := e.directive | fail (.missing "directive")
  let text := String.join (directive.drop 1)
  return Pragma.pinnedVersions text.length text.toList

def replaceDirectives : Repair Unit := do
  let all <- r.elements.mapM fun e => do
    (replacement? (<- versionsIn e)).elim (throw .impossible) pure
  match all with
  | [] => fail .outOfRange
  | t :: rest =>
    if rest.any (· != t) then throw .impossible
    for e in r.elements do
      let stop := e.source.start + e.source.length
      replace e.source.file e.source.start stop (<- textIn e.source.file e.source.start stop) t

def replaceVersions : Repair Unit := do
  for e in r.elements do
    let versions <- versionsIn e
    if versions.length == 1 && (replacement? versions).isNone then throw .impossible
    fail (.lacks "SlitherCompilationUnit" "source_code")

def replaceFirst? (pattern new s : String) : Option String := do
  let p <- Text.Pattern.parse? pattern
  let text := s.toList.toArray
  let (start, stop) <- (List.range (text.size + 1)).findSome? fun i =>
    (Text.Pattern.ends text p i).head?.map fun j => (i, j)
  return take start s ++ new ++ drop stop s

def parentSeat (e : Element) (question : String) : Repair Seat := do
  (<- seatIn (<- scopeOf e.source.file) (<- parentName e)).elim (fail (.lacks "NoneType" question)) pure

def declareAs (word : String) (r : Report) : Repair Unit := do
  for e in r.elements do
    let seat <- parentSeat e "get_state_variable_from_name"
    let some v := seat.variableByName? e.name | fail (.lacks "NoneType" "expression")
    if ((<- program).var v).expr.isNone then throw .impossible
    let stop := e.source.start + e.source.length
    let old <- textIn e.source.file e.source.start stop
    let some new := replaceFirst? e.name (word ++ " " ++ e.name) old | fail (.formatting "State variable not found?!")
    replace e.source.file e.source.start stop old new

def removeVariables : Repair Unit := do
  for e in r.elements do
    if e.kind == "variable" then
      let rest <- lifted (ofUtf8 ((<- bytesOf e.source.file).drop e.source.start))
      let (size, old) := (find? ";" rest).elim (rest.length, rest) fun i => (i, take (i + 1) rest)
      replace e.source.file e.source.start (e.source.start + size + 1) old ""

end

open Ir

/-! ## Renaming -/

inductive Convention where
  | capWords | mixedCase | upperCase

namespace Convention

def ofName? : String -> Option Convention
  | "CapWords" => some capWords
  | "mixedCase" => some mixedCase
  | "UPPER_CASE_WITH_UNDERSCORES" => some upperCase
  | _ => none

def atUnderscore (name : List Char) : List Char × List Char :=
  (name.takeWhile (· != '_'), (name.dropWhile (· != '_')).drop 1)

def outside : Refusal := .fault (.badIndex "string index out of range")

/-- Underscores go and the letters after them become capitals. `fills`: the letters also stay, and two underscores in a row
cannot be replaced. -/
def joinWords (fills : Bool) : Nat -> List Char -> Except Refusal (List Char)
  | 0, name => .ok name
  | fuel + 1, name =>
    if name.contains '_' then
      match atUnderscore name with
      | (_, []) => .error outside
      | (before, c :: rest) =>
        if fills && c == '_' then .error .impossible
        else joinWords fills fuel (before ++ c.toUpper :: (if fills then c :: rest else rest))
    else .ok name

def capitalized : List Char -> List Char
  | [] => []
  | c :: rest => c.toUpper :: rest.map .toLower

def convert (name : String) : Convention -> Except Refusal String
  | capWords => (joinWords true (name.length + 1) (capitalized name.toList)).map .ofList
  | mixedCase => do
    match <- joinWords false (name.length + 1) name.toList with
    | [] => .error outside
    | c :: rest => .ok (.ofList (c.toLower :: rest))
  | upperCase => .ok name.toUpper

end Convention

def reservedWords : List String :=
  ["abstract", "after", "alias", "apply", "auto", "case", "catch", "copyof", "default", "define", "final", "immutable",
    "implements", "in", "inline", "let", "macro", "match", "mutable", "null", "of", "override", "partial", "promise",
    "reference", "relocatable", "sealed", "sizeof", "static", "supports", "switch", "try", "type", "typedef", "typeof",
    "unchecked"]

def usedWords : List String :=
  ["pragma", "import", "contract", "library", "function", "using", "struct", "enum", "public", "private", "internal",
    "external", "calldata", "memory", "modifier", "view", "pure", "constant", "storage", "for", "if", "while", "break",
    "return", "throw", "else"]

def isKeyword (name : String) : Bool :=
  reservedWords.contains name || usedWords.contains name || (Elementary.ofName? name).isSome

def isTaken (p : Program) (name : String) : Bool :=
  p.mostDerived.any fun c =>
    ((p.contract c).structs.values.any fun s => (p.struct s).name == name)
      || ((p.functionsOf c ++ p.modifiersOf c).any (p.functionName · == name))
      || ((p.contract c).enums.values.any fun e => (p.enum e).name == name)
      || (name != "" && ((p.stateVariables c).any fun v => (p.var v).name == name))
      || (name != "" && ((p.functionsOf c).any fun f => (p.function f).vars.values.any fun v => (p.var v).name == name))

structure Renaming where
  target : Target
  convention : Convention

namespace Renaming

variable (r : Renaming) (old : String) (p : Program) (c : Char)

/-- It must be no word of the language and not be taken. -/
def declared : Repair String := do
  match r.convention.convert old with
  | .error refusal => throw refusal
  | .ok new => if isTaken (<- program) new || isKeyword new then throw .impossible else return new

/-- Words with capitals cannot be made there, and names in capitals are not checked. -/
def used : Repair String :=
  match r.convention with
  | .capWords => fail (.badType "a bytes-like object is required, not 'str'")
  | .mixedCase => r.declared old
  | .upperCase => return old.toUpper

variable (e : Element) (file : FileName)

def rename (start : Int) (old : String) : Repair Unit := do
  replace file start (start + old.length) old (<- r.declared old)

def isTarget : Target -> Bool := p.sameTarget r.target

def byteChars (bytes : List UInt8) : List Char := bytes.map (.ofNat ·.toNat)

def byteText (s : String) : String := .ofList (byteChars s.toUTF8.toList)

def isInKey : Bool := c.isAlphanum || c == '.' || c == '_' || c == '[' || c == ']'

def isInValue : Bool := isInKey c || c == '=' || c == '>' || c == '(' || c == ')' || c == ' '

def valueRange? (cs : List Char) : Option (Nat × Nat) := do
  let blanks (cs : List Char) : List Char := cs.dropWhile (· == ' ')
  let rest <- afterPrefix? "mapping".toList (blanks cs)
  let rest <- afterPrefix? ['('] (blanks rest)
  let rest <- afterPrefix? ['=', '>'] (blanks ((blanks rest).dropWhile isInKey))
  let value := (blanks rest).takeWhile isInValue
  let start := cs.length - (blanks rest).length
  let size <- (List.range value.length).reverse.find? fun i => value[i]? == some ')'
  return (start, start + size)

def renameType (start : Nat) (old : String) : Repair Unit := do
  let new <- r.declared old
  let text <- lifted ((<- program).fileText file)
  replace file start (start + if startsWith (drop start text) "var " then 3 else old.length) old new

def placeAfter? (word : String) (cs : List Char) : Option Nat :=
  let runs := (List.range cs.length).filterMap fun i =>
    (afterPrefix? word.toList (cs.drop i)).map fun rest => (i + word.length, (rest.takeWhile (· == ' ')).length)
  (runs.foldl (fun (best : Option (Nat × Nat)) x => best.elim (some x) fun b =>
    if b.2 < x.2 then some x else some b) none).map fun (i, n) => i + n

def renameAfter (word : String) (s : Source) (old : String) : Repair Unit := do
  let new <- r.declared old
  match placeAfter? word (byteChars (<- bytesIn s.file s.start (s.start + s.length))) with
  | some i => replace s.file (s.start + i) (s.start + i + old.length) old new
  | none => fail (.badValue "max() iterable argument is empty")

/-- `line` is the line that is read, from its last byte on. -/
def byteLines : List UInt8 -> List UInt8 -> List (List UInt8)
  | line, [] => if line.isEmpty then [] else [line.reverse]
  | line, 13 :: 10 :: rest => (10 :: 13 :: line).reverse :: byteLines [] rest
  | line, b :: rest => if b == 10 || b == 13 then (b :: line).reverse :: byteLines [] rest else byteLines (b :: line) rest

def findInLines (pattern : String) : Int -> List (List UInt8) -> Option Int
  | _, [] => none
  | start, line :: rest =>
    match find? (byteText pattern) (.ofList (byteChars line)) with
    | some i => some (start + i)
    | none => findInLines pattern (start + line.length) rest

def renameInComment (f : Function) (v : VariableId) (file : FileName) (old new : String) : Repair Unit := do
  let some index := f.parameters.findIdx? (· == v) | return ()
  let some first := f.source.lines.head? | fail .outOfRange
  let count : Int := f.parameters.length - index + 1
  let lines := between (some (first - count - 2)) (some ((first : Int) - 1)) (byteLines [] (<- bytesOf file))
  let start : Int := f.source.start - f.source.startColumn + 1 - lines.foldl (fun (k : Nat) l => k + l.length) 0
  let pattern := "@param " ++ old
  if let some i := findInLines pattern start lines then replace file i (i + pattern.toUTF8.size) pattern ("@param " ++ new)

mutual
def inType (r : Renaming) : Nat -> FileName -> Nat -> Nat -> Ty -> Repair Unit
  | 0, _, _, _, _ => fail .depth
  | fuel + 1, file, start, stop, t => do
    let p <- program
    match t with
    | .enum e => if r.isTarget p (.enum e) then r.renameType file start (p.enum e).name
    | .contract c => if r.isTarget p (.contract c) then r.renameType file start (p.contract c).name
    | .struct s =>
      if r.isTarget p (.struct s) then r.renameType file start (p.struct s).name
      inVariables r fuel false (p.struct s).members.values
    | .valueType _ => fail (.broken "")
    | .mapping _ v =>
      match v with
      | .enum _ | .contract _ | .struct _ | .valueType _ | .mapping .. =>
        let some (i, j) := valueRange? (byteChars (<- bytesIn file start stop)) | fail (.broken "")
        inType r fuel file (start + i) (start + j) v
      | _ => return ()
    | _ => return ()

def inVariables (r : Renaming) : Nat -> Bool -> List VariableId -> Repair Unit
  | 0, _, _ => fail .depth
  | fuel + 1, withComments, vs => do
    for v in vs do
      let p <- program
      let x := p.var v
      let stop := x.source.start + x.source.length
      let text := .ofList (byteChars (<- bytesIn x.source.file x.source.start stop))
      if let some t := x.type then inType r fuel x.source.file x.source.start stop t
      if r.target == .var v then
        let new <- r.declared x.name
        let start := x.source.start + (find? (byteText x.name) text).elim (-1) Int.ofNat
        replace x.source.file start (start + x.name.length) x.name new
        if let .inFunction (some f) _ := x.kind then
          if withComments && x.source.firstLine != 0 then renameInComment (p.function f) v x.source.file x.name new
end

def depth : Nat := 300

def valuesOf (op : Op) : List Value :=
  let callee := match op with
    | .call { kind := .internal (some g) _ _, .. } => [.target (.func g)]
    | .call { kind := .highLevel _ _ (some t), .. } | .call { kind := .library _ _ (some t), .. } => [.target t]
    | _ => []
  op.reads ++ callee ++ op.lvalue?.toList

/-- Functions go by their canonical names; a text that is the name of a contract counts as the contract. -/
def isNamed : Value -> Bool
  | .target t => r.isTarget p t || match r.target, t with
    | .func f, .func g => p.functionCanonicalName f == p.functionCanonicalName g
    | _, _ => false
  | .constant c => match r.target, c.value with
    | .contract k, .text s => (p.contract k).name == s
    | _, _ => false
  | _ => false

/-- After the first one, each is one too small for every occurrence before it. -/
def placesOf (name : List Char) : Nat -> Nat -> List Char -> List Nat
  | 0, _, _ => []
  | fuel + 1, shift, cs =>
    (findFrom? name cs 0).elim [] fun i => (shift + i) :: placesOf name fuel (shift + i) (cs.drop (i + 1))

def targetName : String :=
  match r.target with
  | .contract c => (p.contract c).name
  | .struct s => (p.struct s).name
  | .func f => p.functionName f
  | .var v => (p.var v).name
  | t => p.targetText t

def inOperation (i : Instr) : Repair Unit := do
  let p <- program
  if (valuesOf i.op).any (r.isNamed p) then
    let some e := i.expr | fail (.lacks "NoneType" "source_mapping")
    let s := e.source
    let old := r.targetName p
    let bytes <- bytesIn s.file s.start (s.start + s.length)
    let name := (byteText old).toList
    let places := placesOf name (bytes.length + 1) 0 (byteChars bytes)
    if places.isEmpty then
      fail (.formatting (p.targetText r.target ++ " not found in " ++ quotedBytes bytes ++ " (" ++ p.sourceText s))
    let new <- r.used old
    for i in places do replace s.file (s.start + i) (s.start + i + name.length) old new

def inFunction (f : FunctionId) : Repair Unit := do
  let p <- program
  r.inVariables depth true (p.function f).vars.values
  for i in <- asked (·.askOperations f) do r.inOperation i.instr
  if let .func g := r.target then
    if p.functionCanonicalName f == p.functionCanonicalName g then
      r.renameAfter (if (p.function g).isModifier then "modifier" else "function") (p.function f).source (p.functionName f)

def inContract (c : ContractId) : Repair Unit := do
  let p <- program
  let x := p.contract c
  r.inVariables depth false (p.stateVariables c)
  for s in x.structs.values do
    r.inVariables depth false (p.struct s).members.values
    if r.isTarget p (.struct s) then r.renameAfter "struct" (p.struct s).source (p.struct s).name
  for f in p.functionsOf c ++ p.modifiersOf c do r.inFunction f
  for e in x.enums.values do if r.isTarget p (.enum e) then r.renameAfter "enum" (p.enum e).source (p.enum e).name
  if r.isTarget p (.contract c) then r.renameAfter "contract" x.source x.name

end Renaming

variable (e : Element)

def parameterOf? : Repair (Option VariableId) := do
  let p <- program
  match e.subject with
  | some (.declared (.var v)) =>
    let .inFunction (some f) _ := (p.var v).kind | fail (.broken "")
    let some declarer := p.functionDeclarer? f | fail (.badType "'NoneType' object is not subscriptable")
    let some seat <- seatIn (<- scopeOf e.source.file) (p.contract declarer).name | fail (.broken "")
    let some g := seat.functionByFullName? (p.functionFullName f) | fail (.broken "")
    return (p.function g).vars.values.find? fun w => (p.var w).name == e.name
  | _ => fail (.broken "")

def declarationOf? (kind : String) : Repair (Option Target) := do
  match kind with
  | "contract" => return ((<- scopeOf e.source.file).contracts.find? e.name).map .contract
  | "structure" => return ((<- parentSeat e "get_structure_from_name").structByName? e.name).map .struct
  | "event" =>
    let _ <- parentSeat e "get_event_from_name"
    fail (.lacks "Contract" "get_event_from_name")
  | "function" =>
    if e.name == (<- parentName e) then return none
    return ((<- parentSeat e "get_function_from_signature").functionBySignature? (e.signature.getD "")).map .func
  | "modifier" =>
    return ((<- parentSeat e "get_modifier_from_signature").modifierByFullName? (e.signature.getD "")).map .func
  | "parameter" => return (<- parameterOf? e).map .var
  | "variable" | "variable_constant" =>
    return ((<- parentSeat e "get_state_variable_from_name").variableByName? e.name).map .var
  | "enum" => return ((<- parentSeat e "get_enum_from_canonical_name").enumByCanonicalName? e.name).map .enum
  | _ => fail (.formatting ("Unknown naming convention! " ++ kind))

def detailOf (key : String) : Repair String :=
  if let some (.str s) := e.additional.lookup key then return s else fail (.missing key)

def renameAll (r : Report) : Repair Unit := do
  for e in r.elements do
    let kind <- detailOf e "target"
    let convention <- detailOf e "convention"
    if convention != "l_O_I_should_not_be_used" then
      let some target <- declarationOf? e kind | fail (.broken "")
      let some convention := Convention.ofName? convention | fail (.missing convention)
      for c in (<- program).mostDerived do Renaming.inContract ⟨target, convention⟩ c

end Repair

end ContractAudit
