import ContractAudit.Analysis.Summary

/-! # Mutants

Small changes of the source of a contract, which good tests should notice.
-/

namespace ContractAudit

namespace Mutation

structure Mutant where
  start : Int
  stop : Int
  old : String
  new : String
  line : Nat
  deriving DecidableEq

structure Site where
  seat : Seat
  text : String
  skipped : List Nat := []

namespace Site

variable (s : Site)

def of (seat : Seat) (skipped : List Nat) : Result Site := do
  return { seat, text := <- seat.program.fileText seat.declaration.source.file, skipped }

def program : Program := s.seat.program

def code : List FunctionId := s.program.declaredCode s.seat.contract

def nodes : List Place := s.code.flatMap fun f => (s.program.function f).flow.order.map fun n => (f, n)

def node (f : FunctionId) (n : NodeId) : Node := (s.program.function f).flow.node n

def between (start stop : Int) : String := .ofList (Text.between (some start) (some stop) s.text.toList)

def lineOf (src : Source) : Result Nat := expect src.lines.head? .outOfRange

/-- `news` are told from the old text. -/
def replace (start stop : Int) (line : Nat) (news : String -> Result (List String)) :
    Result (List Mutant) := do
  if s.skipped.contains line then return []
  let old := s.between start stop
  return (<- news old).map fun new => ⟨start, stop, old, new, line⟩

def replaceNode (f : FunctionId) (n : NodeId) (news : String -> Result (List String)) :
    Result (List Mutant) := do
  let src := (s.node f n).source
  s.replace src.start (src.start + src.length) (<- lineOf src) news

end Site

end Mutation

structure Mutator where
  name : String
  mutants : Mutation.Site -> Result (List Mutation.Mutant)

/-! ## Exchanging words -/

namespace Mutation

structure Rule where
  words : List String
  new : String
  before : Option (Char -> Bool) := none
  after : Option (Char -> Bool) := none
  isLoose : Bool := false
  isWhole : Bool := false

namespace Rule

def afterWord? (isLoose : Bool) : List Char -> List Char -> Option (List Char)
  | [], cs => some cs
  | w :: ws, c :: cs => if w == c || (isLoose && w == '.' && c != '\n') then afterWord? isLoose ws cs else none
  | _ :: _, [] => none

def kept? (kind : Option (Char -> Bool)) (cs : List Char) : Option (List Char × List Char) :=
  match kind, cs with
  | none, cs => some ([], cs)
  | some holds, c :: cs => if holds c then some ([c], cs) else none
  | some _, [] => none

def atFront? (r : Rule) (cs : List Char) : Option (List Char × List Char) := do
  let (before, rest) <- kept? r.before cs
  r.words.findSome? fun w => do
    let rest <- afterWord? r.isLoose w.toList rest
    let (after, rest) <- kept? r.after rest
    if r.isWhole && !(rest.isEmpty || rest == ['\n']) then none
    else some (before ++ r.new.toList ++ after, rest)

def exchange (r : Rule) : Nat -> List Char -> List Char × Bool
  | 0, cs => (cs, false)
  | _ + 1, [] => ([], false)
  | fuel + 1, c :: cs =>
    match r.atFront? (c :: cs) with
    | some (new, rest) => (new ++ (exchange r fuel rest).1, true)
    | none =>
      if r.isWhole then (c :: cs, false)
      else
        let (rest, found) := exchange r fuel cs
        (c :: rest, found)

def applied? (r : Rule) (s : String) : Option String :=
  let (cs, found) := r.exchange (s.length + 1) s.toList
  if found then some (.ofList cs) else none

variable (old new : String)

def plain : Rule := { words := [old], new }

def loose : Rule := { words := [old], new, isLoose := true }

def afterBlank (old : List String) (new : String) : Rule := { words := old, new, before := some Text.isBlank }

def called : Rule := { words := [old], new, after := some fun c => c == '(' || c == '\x7b' }

def ofHeads : List Rule :=
  [plain "pure" "view", plain "view" "pure", afterBlank ["external", "public", "internal"] "private",
    afterBlank ["external", "public"] "internal"]

def ofStatements : List Rule :=
  [plain "abi.encode(" "abi.encodePacked(", plain "abi.encodePacked(" "abi.encode(", called ".call" ".delegatecall",
    called ".call" ".staticcall", called ".delegatecall" ".call", called ".delegatecall" ".staticcall",
    called ".staticcall" ".delegatecall", called ".staticcall" ".call", { words := ["now"], new := "0", isWhole := true },
    loose "block.timestamp" "0", loose "msg.value" "0", loose "msg.value" "1", afterBlank ["wei", "gwei"] "ether",
    afterBlank ["ether", "gwei"] "wei", afterBlank ["wei", "ether"] "gwei",
    afterBlank ["minutes", "days", "hours", "weeks"] "seconds", afterBlank ["seconds", "days", "hours", "weeks"] "minutes",
    afterBlank ["seconds", "minutes", "hours", "weeks"] "days", afterBlank ["seconds", "minutes", "days", "weeks"] "hours",
    afterBlank ["seconds", "minutes", "days", "hours"] "weeks", afterBlank ["memory"] "storage",
    afterBlank ["storage"] "memory", afterBlank ["constant"] "immutable", plain "addmod" "mulmod", plain "mulmod" "addmod",
    loose "msg.sender" "tx.origin", loose "tx.origin" "msg.sender",
    { words := ["fixed"], new := "ufixed", before := some (· != 'u') }, plain "ufixed" "fixed", plain "int16" "int8",
    plain "int32" "int16", plain "int64" "int32", plain "int128" "int64", plain "int256" "int128", plain "while" "if"]

end Rule

/-! ## Ways to change contracts -/

open Ir Text

variable (s : Site) (f : FunctionId) (n : NodeId)

/-! ## Operators -/

def aroundSign (sign old : String) : Result (String × String) :=
  if let before :: after :: _ := splitOn old sign then .ok (before, after) else .error .outOfRange

def exchangeSign (gap sign : String) (others : List String) (old : String) : Result (List String) := do
  if others.isEmpty then return []
  let (before, after) <- aroundSign sign old
  return others.map (before ++ gap ++ · ++ gap ++ after)

def operatorsIn (kind : List BinaryOp) (instrs : List Instr) : List BinaryOp :=
  instrs.filterMap fun i => match i.op with
    | .binary _ op _ _ => if kind.contains op then some op else none
    | _ => none

def exchangeIn (kind : List BinaryOp) (gap : String) (instrs : Site -> FunctionId -> NodeId -> List Instr) (s : Site) :
    Result (List Mutant) :=
  s.nodes.flatMapM fun (f, n) => (operatorsIn kind (instrs s f n)).flatMapM fun op =>
    s.replaceNode f n (exchangeSign gap op.sign ((kind.filter (· != op)).map (·.sign)))

def instrsOf : List Instr := s.seat.unit.instrs f n

/-- Those that stand for operators of the source. Adding to and taking from an array need the last six of the node. -/
def arithmeticIn : List Instr :=
  let all := instrsOf s f n
  match (s.node f n).expr with
  | some (.unary ..) => []
  | some (.call _ (.member _ _ name _) _ _ _ _ _ _ _) =>
    if name == "pop" then [] else if name == "push" then all.take (all.length - 6) else all
  | _ => all

def arithmetic : Mutator := .mk "AOR" <| exchangeIn [.addition, .division, .multiplication, .subtraction, .modulo] "" arithmeticIn

def bitwise : Mutator := .mk "BOR" <| exchangeIn [.and, .or, .leftShift, .rightShift, .caret] "" instrsOf

def logical : Mutator := .mk "LOR" <| exchangeIn [.orOr, .andAnd] " " instrsOf

def comparisons : List BinaryOp := [.less, .greater, .lessEqual, .greaterEqual, .equal, .notEqual]

/-- Addresses are left as they are. -/
def exchangeComparison (i : Instr) : Result (List Mutant) := do
  match i.op with
  | .binary _ op left right =>
    let style := OpStyle.plain s.program s.seat.unit.store false
    if !comparisons.contains op || style.typeOf left == "address" || style.name right == "address" then return []
    let e <- expect i.expr (.lacks "NoneType" "source_mapping")
    let line <- Site.lineOf (s.node f n).source
    s.replace e.source.start (e.source.start + e.source.length) line
      (exchangeSign " " op.sign ((comparisons.filter (· != op)).map (·.sign)))
  | _ => return []

def relational : Mutator := .mk "ROR" fun s =>
  s.nodes.flatMapM fun (f, n) => (instrsOf s f n).flatMapM (exchangeComparison s f n)

def assignments : List AssignOp :=
  [.addition, .subtraction, .assign, .or, .caret, .and, .leftShift, .rightShift, .multiplication, .division, .modulo]

def assigning : Mutator := .mk "ASOR" fun s =>
  s.nodes.flatMapM fun (f, n) => (instrsOf s f n).flatMapM fun i =>
    match i.expr with
    | some (.assign _ op _ _ _) =>
      if op == .assign then return []
      else s.replaceNode f n (exchangeSign "" op.sign ((assignments.filter (· != op)).map (·.sign)))
    | _ => return []

def unaries : List UnaryOp := [.incrementBefore, .decrementBefore, .incrementAfter, .decrementAfter, .minus]

def exchangeUnary (op : UnaryOp) (read : List String) (old : String) : Result (List String) := do
  let name <- expect read.head? .outOfRange
  return (unaries.filter (· != op)).flatMap fun other =>
    let before := other.sign ++ name
    let after := name ++ other.sign
    let (same, turned) := if op.isBefore then (before, after) else (after, before)
    (if same != old && other != .minus then [same] else []) ++ [turned]

def unary : Mutator := .mk "UOR" fun s =>
  s.nodes.flatMapM fun (f, n) => s.replaceNode f n fun old =>
    match (s.node f n).expr with
    | some (.unary _ op _) =>
      if unaries.contains op then
        exchangeUnary op ((s.seat.unit.nodeCode f n).read.map (s.program.valueText s.seat.unit.store)) old
      else .ok []
    | _ => .ok []

/-! ## Statements -/

def isStatement (place : Place) : Bool :=
  !((s.node place.1 place.2).kind matches .entryPoint | .endIf | .endLoop)

def changeStatements (news : String -> List String) (s : Site) : Result (List Mutant) :=
  (s.nodes.filter (isStatement s)).flatMapM fun (f, n) => s.replaceNode f n (.ok <| news ·)

def commenting : Mutator := .mk "CR" <| changeStatements fun old => ["//" ++ old]

def reverting : Mutator := .mk "RR" <| changeStatements fun old =>
  if startsWith (stripLeft old) "revert" then [] else ["revert()"]

def negate (e : Option Expr) (old : String) : List String := if let some (.unary ..) := e then [] else ["!(" ++ old ++ ")"]

def branching : Mutator := .mk "MIA" fun s =>
  (s.nodes.filter fun (f, n) => (s.node f n).kind == .branch).flatMapM fun (f, n) => do
    let e <- expect (s.node f n).expr (.lacks "NoneType" "source_mapping")
    let line <- Site.lineOf (s.node f n).source
    s.replace e.source.start (e.source.start + e.source.length) line fun old =>
      .ok (["true", "false"] ++ negate (some e) old)

def looping : Mutator := .mk "MWA" fun s =>
  (s.nodes.filter fun (f, n) => (s.node f n).kind == .loopBranch).flatMapM fun (f, n) =>
    s.replaceNode f n (.ok <| negate (s.node f n).expr ·)

def heads : Mutator := .mk "FHR" fun s =>
  s.code.flatMapM fun f => do
    let src := (s.program.function f).source
    let length : Int := (find? "\x7b" (s.between src.start src.stop)).elim (-1) Int.ofNat
    s.replace src.start (src.start + length) (<- Site.lineOf src) fun old => .ok (Rule.ofHeads.filterMap (·.applied? old))

def wording : Mutator := .mk "SBR" fun s => do
  let news (old : String) : List String := Rule.ofStatements.filterMap (·.applied? old)
  let inCode <- changeStatements news s
  let initial := (s.program.declaredVariables s.seat.contract).filterMap fun v => (s.program.var v).initNode
  return inCode ++ (<- initial.flatMapM fun (f, n) => s.replaceNode f n (.ok <| news ·))

/-! ## Initial values -/

structure Initial where
  variable_ : Variable
  expr : Expr
  line : Nat

def settingLine (x : Variable) : Result Nat :=
  x.initNode.elim (.error (.lacks "NoneType" "source_mapping")) fun (f, n) => Site.lineOf (s.node f n).source

/-- The state variables that may change, and the local variables. -/
def initials (literals : Bool) (s : Site) : Result (List Initial) := do
  let p := s.program
  let isMeant (x : Variable) : Bool := x.initialized && x.expr.any (· matches .literal ..) == literals
  let exprOf (x : Variable) : Result Expr := expect x.expr (.lacks "NoneType" "source_mapping")
  let stored := ((p.declaredVariables s.seat.contract).map p.var).filter fun x => isMeant x && !x.isConstant
  let stored <- stored.mapM fun x => do return { variable_ := x, expr := <- exprOf x, line := <- settingLine s x : Initial }
  let inner := ((s.code.flatMap (Analysis.localVariables p)).map p.var).filter isMeant
  let inner <- inner.mapM fun x => do
    return { variable_ := x, expr := <- exprOf x, line := <- Site.lineOf x.source : Initial }
  return stored ++ inner

def withoutInitials (literals : Bool) (s : Site) : Result (List Mutant) := do
  let shown := (<- initials literals s).filter (!s.skipped.contains ·.line)
  return shown.map fun x =>
    let start := x.variable_.source.start
    let stop := x.expr.source.start
    let old := s.between start stop
    let new := (find? "=" old).elim (dropLast 1 old) fun i => take i old
    ⟨start, stop + x.expr.source.length, old, new, x.line⟩

def withoutValues : Mutator := .mk "MVIV" <| withoutInitials true

def withoutExpressions : Mutator := .mk "MVIE" <| withoutInitials false

def extremes (t : Elementary) : Result (List String) := do
  let greatest := (<- t.max).elim "None" toString
  let one := if startsWith t.name "uint" then ["1"] else if startsWith t.name "int" then ["-1"] else []
  return toString (<- t.min) :: greatest :: one

/-- Only a value that is written with a sign of its own can be the one that stands there already. -/
def otherValues (values : List String) (old : String) : List String :=
  let current := strip ((find? "=" old).elim old fun i => drop (i + 1) old)
  let name := (splitOn old "=").headD ""
  (values.filter fun v => !((v == "1" || v == "-1") && v == current)).map (name ++ "= " ++ ·)

/-- Each variable is given the extremes of its own type and of those before it. -/
def changeValues : List Initial -> List String -> Result (List Mutant)
  | [], _ => .ok []
  | x :: rest, values => do
    let own <- if let some (.elementary t) := x.variable_.type then extremes t else pure []
    let values := values ++ own
    let src := x.variable_.source
    let mutants <- s.replace src.start (src.start + src.length) x.line fun old => .ok (otherValues values old)
    return mutants ++ (<- changeValues rest values)

def values : Mutator := .mk "LIR" fun s => do changeValues s (<- initials true s) []

end Mutation

namespace Mutator

open Mutation

def all : List Mutator :=
  [withoutValues, withoutExpressions, logical, unary, wording, arithmetic, bitwise, assigning, looping, values, heads,
    branching, relational, reverting, commenting]

def named (name : String) : Result Mutator := expect (all.find? (·.name == name)) (.missing name)

def run (m : Mutator) (seat : Seat) (skipped : List Nat) : Result (List Mutant) := do
  return (<- m.mutants (<- Site.of seat skipped)).eraseDups

end Mutator

end ContractAudit
