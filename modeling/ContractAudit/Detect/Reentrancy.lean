import ContractAudit.Detect.Basic

/-! # Reentrancy

State variables that are written, and events that are emitted, after a call that may lead back into the contract.
-/

namespace ContractAudit.Detect

open Ir Analyze

variable (a : Analysis) (c : ContractId) (f : FunctionId) (n : NodeId) (s : CallState) (e : LateEffect)

abbrev Group := Place × List Place

def byNode (places : List Place) : List Place := places.mergeSort fun x y => decide (x.2 ≤ y.2)

def groupsOf (t : Table NodeId (List Place)) : List Group :=
  (t.mergeSort fun x y => decide (x.1 ≤ y.1)).map fun (n, places) => ((f, n), byNode places)

structure LateEffect where
  variable_ : Option VariableId
  name : String
  number : Nat := 0
  group : Group
  elsewhere : List Target := []
  deriving DecidableEq

def LateEffect.inOrder (es : List LateEffect) : List LateEffect :=
  es.mergeSort fun x y => decide (x.name < y.name) || (x.name == y.name && decide (x.group.1.2 ≤ y.group.1.2))

structure LateFinding where
  function : FunctionId
  calls : List Group
  sends : List Group
  effects : List LateEffect

def LateFinding.add (fs : List LateFinding) (new : LateFinding) : List LateFinding :=
  let isSame (x : LateFinding) : Bool := x.function == new.function && x.calls == new.calls && x.sends == new.sends
  if fs.any isSame then fs.map fun x => if isSame x then { x with effects := addAllNew x.effects new.effects } else x
  else fs ++ [{ new with effects := new.effects.eraseDups }]

def groupLines (groups : List Group) : List Phrase :=
  groups.flatMap fun (place, details) =>
    [.text "\t- ", .node place.1 place.2, .text "\n"] ++ (details.filter (· != place)).flatMap fun d =>
      [.text "\t\t- ", .node d.1 d.2, .text "\n"]

def groupItems (groups : List Group) (head detail : List (String × Json)) : List (Subject × List (String × Json)) :=
  groups.flatMap fun (place, details) =>
    (.node place.1 place.2, head) :: (details.filter (· != place)).map fun d => (.node d.1 d.2, detail)

def underlying (kind : String) : List (String × Json) := [("underlying_type", .str kind)]

def elsewhereLines : List Phrase :=
  e.variable_.elim [] fun v => if e.elsewhere.isEmpty then [] else
    [.text "\t", .var v, .text " can be used in cross function reentrancies:\n"]
      ++ Phrase.lines "\t- " (e.elsewhere.map .declared)

def effectLines (title : String) (es : List LateEffect) : List Phrase :=
  .text title :: es.flatMap fun e => groupLines [e.group] ++ elsewhereLines e

def effectItems : List (Subject × List (String × Json)) :=
  let fields := e.variable_.elim (underlying "event") fun _ =>
    underlying "variables_written" ++ [("variable_name", .str e.name)]
  groupItems [e.group] fields fields

structure LateStyle where
  tellsSends : Bool := true
  listedSends : LateFinding -> List Group := (·.sends)

def LateFinding.finding (style : LateStyle) (x : LateFinding) : Finding :=
  let differ := style.tellsSends && x.calls != x.sends
  let writes := LateEffect.inOrder (x.effects.filter (·.variable_.isSome))
  let events := LateEffect.inOrder (x.effects.filter (·.variable_.isNone))
  let sending := if differ && !x.sends.isEmpty then .text "\tExternal calls sending eth:\n" :: groupLines x.sends else []
  let written := if writes.isEmpty then [] else effectLines "\tState variables written after the call(s):\n" writes
  let emitted := if events.isEmpty then [] else effectLines "\tEvent emitted after the call(s):\n" events
  let listed := if differ then
      groupItems (style.listedSends x) (underlying "external_calls_sending_eth") (underlying "external_calls_sending_eth")
    else []
  { info := [.text "Reentrancy in ", .func x.function, .text ":\n", .text "\tExternal calls:\n"]
      ++ groupLines x.calls ++ sending ++ written ++ emitted
    more := (.declared (.func x.function), [])
      :: groupItems x.calls (underlying "external_calls") (underlying "external_calls_sending_eth")
      ++ listed ++ (writes ++ events).flatMap effectItems }

def writesAt (p : Program) (f : FunctionId) (n : NodeId) (s : CallState) : List LateEffect :=
  s.written.map fun (v, places) => { variable_ := some v, name := (p.var v).name, group := ((f, n), byNode places) }

def eventsAt : List LateEffect :=
  s.events.map fun (name, place, k) =>
    { variable_ := none, name, number := k, group := (place, byNode [place, (f, n)].eraseDups) }

def hasOther (t : Table NodeId (List Place)) : Bool := t.keys.any (· != n)

def lateFindings (rule : CallbackRule) (tellsSends : Bool)
    (effects : ContractId -> FunctionId -> NodeId -> CallState -> Analyze (List LateEffect)) :
    Analyze (List LateFinding) := do
  exploreCalls rule
  let p := (<- get).program
  let mut found : List LateFinding := []
  for c in p.contracts do
    for f in p.declaredCode c do
      let states := ((<- get).memo.callStates.find? (rule, f)).getD []
      for n in p.function f |>.flow.order do
        if let some s := states.find? n then
          let effects <- effects c f n s
          if !effects.isEmpty then
            found := LateFinding.add found ⟨f, groupsOf f s.calls, if tellsSends then groupsOf f s.sends else [], effects⟩
  return found

def lateRule (rule : CallbackRule) (style : LateStyle)
    (effects : ContractId -> FunctionId -> NodeId -> CallState -> Analyze (List LateEffect)) : Rule :=
  .asking do
    let p := (<- get).program
    let found <- lateFindings rule style.tellsSends effects
    let named := found.mergeSort fun x y => decide (p.functionName x.function ≤ p.functionName y.function)
    return named.map (LateFinding.finding style)

def wasRead (n : NodeId) (v : VariableId) : Bool := ((s.readsBefore.find? n).getD []).contains v

def reentrancy (name : String) (impact : Severity) (recommendation : String) (rule : Rule) : Detector :=
  { name, impact, confidence := .medium, title := "Reentrancy vulnerabilities", recommendation, isWhole := false, rule }

def advice : String :=
  "Apply the [`check-effects-interactions` " ++
    "pattern](http://solidity.readthedocs.io/en/v0.4.21/security-considerations.html#re-entrancy)."

def reentrancyBenign : Detector :=
  reentrancy "reentrancy-benign" .low advice <| lateRule .anyCall { listedSends := (·.calls) } fun _ f n s => do
    if !hasOther n s.calls then return []
    return (writesAt (<- get).program f n s).filter fun e => e.variable_.any fun v => !s.calls.keys.any (wasRead s · v)

/-- Each with the functions that use it, and the public ones. The functions `fs` can be called again while they run. -/
def findShared (fs : List FunctionId) : Table VariableId (List Target) :=
  let used := (fs.flatMap a.allPlacedInstrs).flatMap fun x =>
    (a.statesIn (x.instr.op.reads ++ x.instr.op.lvalue?.toList)).map fun v => (v, [.func x.function])
  let open_ := ((a.program.stateVariables c).filter fun v => (a.program.var v).visibility == some "public").map fun v => (v, [.var v])
  CallState.merge [] (used ++ open_)

def sharedVariables (c : ContractId) : Analyze (Table VariableId (List Target)) := do
  let a <- get
  match a.memo.sharedVariables.find? c with
  | some shared => return shared
  | none =>
    let fs <- lifted ((a.program.entryPoints c).filterM a.isReentrant)
    let shared := findShared a c fs
    modify (·.widen fs)
    modify fun a => { a with memo := { a.memo with sharedVariables := a.memo.sharedVariables.insert c shared } }
    return shared

/-- A variable that was asked for counts as shared from then on. -/
def usesElsewhere (v : VariableId) : Analyze (List Target) := do
  let shared <- sharedVariables c
  let uses := (shared.find? v).getD []
  let shared := shared.insert v uses
  modify fun a => { a with memo := { a.memo with sharedVariables := a.memo.sharedVariables.insert c shared } }
  let p := (<- get).program
  return uses.mergeSort fun x y => decide (p.targetText x ≤ p.targetText y)

/-- Written after they may have been read before a call in another node, while others can use them in between. -/
def staleWrites : Analyze (List LateEffect) := do
  let a <- get
  let others := s.calls.keys.filter (· != n)
  let mut found : List LateEffect := []
  for m in others do
    for e in writesAt a.program f n s do
      if let some v := e.variable_ then
        if wasRead s m v then
          let counts <- do if <- lifted (a.isReentrant f) then pure true else pure ((<- sharedVariables c).has v)
          if counts then found := addNew { e with elsewhere := <- usesElsewhere c v } found
  return found

def reentrancyEth : Detector :=
  reentrancy "reentrancy-eth" .high ("Apply the [`check-effects-interactions " ++
      "pattern`](http://solidity.readthedocs.io/en/v0.4.21/security-considerations.html#re-entrancy).") <|
    lateRule .anyCall {} fun c f n s => do
    let _ <- sharedVariables c
    if s.calls.isEmpty || !hasOther n s.sends then return []
    staleWrites c f n s

def reentrancyNoEth : Detector :=
  reentrancy "reentrancy-no-eth" .medium advice <| lateRule .anyCall { tellsSends := false } fun c f n s => do
    let _ <- sharedVariables c
    if s.calls.isEmpty || !s.sends.isEmpty then return []
    staleWrites c f n s

def reentrancyEvents : Detector :=
  reentrancy "reentrancy-events" .low ("Apply the [`check-effects-interactions` " ++
      "pattern](https://docs.soliditylang.org/en/latest/security-considerations.html#re-entrancy).") <|
    lateRule .anyCall {} fun _ f n s => do
    if !(<- lifted ((<- get).isReentrant f)) then return []
    return if hasOther n s.calls then eventsAt f n s else []

def reentrancyUnlimitedGas : Detector :=
  reentrancy "reentrancy-unlimited-gas" .informational advice <| lateRule .sendsOnly {} fun _ f n s => do
    let p := (<- get).program
    return if hasOther n s.calls then writesAt p f n s ++ eventsAt f n s else []

def chosenCalls : Result (List Place) := do
  let parameters := (a.program.function f).parameters.map .var
  if parameters.isEmpty then return []
  (a.allPlacedInstrs f).flatMapM fun x => do
    let destination? : Option Value := match x.instr.op with
      | .call { kind := .lowLevel d _, .. } | .call { kind := .highLevel d _ _, .. }
      | .call { kind := .library d _ _, .. } => some d
      | _ => none
    let some d := destination? | return []
    let depends (v : Value) : Result Bool := a.isDependent d v (.function f)
    let counts := [<- parameters.anyM depends, <- depends Analysis.sender, <- depends (.target (.member "tx.origin"))]
    return (counts.filter id).map fun _ => (x.function, x.node)

def tokenReentrancy : Detector :=
  .plain "token-reentrancy" .medium .medium "Token reentrant"
    ("Avoid to have external calls in `transfer`/`transferFrom`.\nIf you do, ensure your users are aware " ++
      "of the potential issues.") <| .asking do
    let a <- get
    let p := a.program
    let fs := (p.mostDerived.flatMap p.entryPoints).filter fun f =>
      ["transfer(address,uint256)", "transferFrom(address,address,uint256)"].contains (p.functionFullName f)
    modify (·.widen fs)
    findEach fs (lifted <| chosenCalls a ·) fun f places =>
      .of [.func f, " is an reentrancy unsafe token function:\n"] (Phrase.lines "\t-" (places.map fun (g, n) => .node g n))

end ContractAudit.Detect
