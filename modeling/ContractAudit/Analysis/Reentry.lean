import ContractAudit.Analysis.Summary

/-! # Calls that leave the contract

What was found out about a function is kept, also while the question is still open: a function that calls itself is taken not
to be called again.
-/

namespace ContractAudit

open Ir

abbrev Inquiry := EStateM Fault Memo

namespace Call

def isStatic (p : Program) (callee : Option Target) : Bool :=
  p.version != "" && decide ("0.5.0" ≤ p.version) &&
    match callee with
    | some (.func g) => (p.function g).view || (p.function g).pure
    | some (.var _) => true
    | _ => false

def canSend (c : Ir.Call) : Bool :=
  match c.kind with
  | .send .. | .transfer .. => true
  | .highLevel .. | .library .. | .lowLevel .. | .newContract _ => c.value.isSome
  | _ => false

def enter (rec : List Target -> FunctionId -> Inquiry Bool) (stack : List Target) (callee : Option Target) :
    Inquiry Bool :=
  callee.elim (throw (.lacks "NoneType" "can_reenter")) fun t =>
    if stack.contains t then return false
    else match t with
      | .func g => rec (stack ++ [t]) g
      | _ => return false

def isOpenDestination (p : Program) (s : Store) (v : Value) : Bool :=
  (Program.variableOf? s v).all fun x => (p.var x).reentrant

/-- `rec` answers for functions, `stack` are those that run already. -/
def canReenter (p : Program) (s : Store) (rec : List Target -> FunctionId -> Inquiry Bool) (stack : List Target)
    (c : Ir.Call) : Inquiry Bool := do
  match c.kind with
  | .highLevel d _ callee =>
    if isStatic p callee then return false
    if d.same .this then
      match callee with
      | some (.var _) => return false
      | some t =>
        if stack.contains t then return false
        if <- enter rec stack callee then return true
      | none => let _ <- enter rec stack none
    return isOpenDestination p s d
  | .library _ _ callee => if isStatic p callee then return false else enter rec stack callee
  | .lowLevel _ name => return name.render != "staticcall"
  | .newContract t =>
    match t with
    | .contract k =>
      match p.constructor? k with
      | some g => enter rec stack (some (.func g))
      | none => return false
    | _ => return false
  | _ => return false

end Call

namespace Analysis

/-- From then on the operations of all that it calls are kept with its own. -/
def askOperations (a : Analysis) (f : FunctionId) : Inquiry (List Placed) := do
  modify (a.noteAsked [f])
  return a.allPlacedInstrs f

def canReenterFrom (a : Analysis) : Nat -> List Target -> FunctionId -> Inquiry Bool
  | 0, _, _ => return false
  | fuel + 1, stack, f => do
    match (<- get).canReenter.find? f with
    | some b => return b
    | none =>
      modify fun m => { m with canReenter := m.canReenter.insert f false }
      let found <- (<- a.askOperations f).anyM fun i => match i.instr.op with
        | .call c => Call.canReenter a.program a.store (a.canReenterFrom fuel) stack c
        | _ => return false
      if found then modify fun m => { m with canReenter := m.canReenter.insert f true }
      return found

def canReenter (a : Analysis) (f : FunctionId) : Inquiry Bool := a.canReenterFrom (a.functionBound + 1) [] f

def callCanReenter (a : Analysis) (c : Call) : Inquiry Bool :=
  Call.canReenter a.program a.store (a.canReenterFrom (a.functionBound + 1)) [] c

def canSend (a : Analysis) (f : FunctionId) : Bool :=
  (a.allPlacedInstrs f).any fun i => if let .call c := i.instr.op then Call.canSend c else false

end Analysis

/-! ## What happens before a call leads back

A walk collects for each node the calls that may lead back before it is left, and the state variables that may have been read
before them. It comes back to a node as long as it brings something new there.
-/

namespace CallState

def merge {κ α : Type} [BEq κ] [BEq α] (t u : Table κ (List α)) : Table κ (List α) :=
  u.foldl (fun t (k, xs) => t.alter k [] (addAllNew · xs)) t

def isPart {κ α : Type} [BEq κ] [BEq α] (t u : Table κ (List α)) : Bool :=
  t.all fun (k, xs) => (u.find? k).any fun ys => xs.all ys.contains

def join (s t : CallState) : CallState :=
  { s with
    calls := merge s.calls t.calls, sends := merge s.sends t.sends, reads := merge s.reads t.reads
    readsBefore := merge s.readsBefore t.readsBefore }

def without (skipped : Option NodeId) (s : CallState) : CallState :=
  { s with
    calls := s.calls.filter (some ·.1 != skipped)
    sends := s.sends.filter fun x => some x.1 != skipped }

def isKnown (new known : CallState) : Bool :=
  isPart new.calls known.calls && isPart new.sends known.sends && isPart new.reads known.reads
    && isPart new.readsBefore known.readsBefore && isPart known.readsBefore new.readsBefore

end CallState

namespace Analysis

variable (a : Analysis) (f : FunctionId) (n : NodeId) (rule : CallbackRule)

def calledFrom : List FunctionId :=
  ((a.nodeCode f n).internalCalls.filterMap (calledFunction? ·.op)).flatMap a.withCallees |>.eraseDups

def numberedOps : List (Place × Nat × Op) :=
  let own (g : FunctionId) (m : NodeId) : List (Place × Nat × Op) :=
    (a.instrs g m).zipIdx.map fun (i, k) => ((g, m), k, i.op)
  own f n ++ (a.calledFrom f n).flatMap fun g => (a.nodeIds g).flatMap (own g)

def usesAt (use : NodeCode -> List Value) (f : FunctionId) (n : NodeId) : List (VariableId × Place) :=
  let own (g : FunctionId) (m : NodeId) : List (VariableId × Place) :=
    (a.statesIn (use (a.nodeCode g m))).map fun v => (v, (g, m))
  own f n ++ (a.calledFrom f n).flatMap fun g => (a.nodeIds g).flatMap (own g)

def statesUsedAt (use : NodeCode -> List Value) (f : FunctionId) (n : NodeId) : Table VariableId (List Place) :=
  CallState.merge [] ((a.usesAt use f n).map fun (v, place) => (v, [place]))

def leadsBack (c : Call) : Inquiry Bool :=
  match rule with
  | .anyCall => a.callCanReenter c
  | .sendsOnly => return c.kind matches .send .. | .transfer ..

def callbackNodes (ops : List (Place × Nat × Op)) : Inquiry (List Place) := do
  let found <- ops.filterM fun (_, _, op) => if let .call c := op then a.leadsBack rule c else return false
  return (found.map (·.1)).eraseDups

def sendingAt : List Place :=
  ((a.numberedOps f n).filter fun (_, _, op) => if let .call c := op then Call.canSend c else false).map (·.1)

/-- `callbacks` are the places of the calls in the node that may lead back. -/
def after (f : FunctionId) (n : NodeId) (callbacks : List Place) (before : CallState) : CallState :=
  let reads := a.statesUsedAt (·.read) f n
  let sending := a.sendingAt f n
  let events := (a.numberedOps f n).filterMap fun (place, k, op) => match op with
    | .call { kind := .event name, .. } => some (name, place, k)
    | _ => none
  let known := addAllNew before.reads.keys reads.keys
  { calls := if callbacks.isEmpty then before.calls else CallState.merge before.calls [(n, callbacks)]
    readsBefore := if callbacks.isEmpty then before.readsBefore else CallState.merge before.readsBefore [(n, known)]
    sends := if sending.isEmpty then before.sends else CallState.merge before.sends [(n, sending.eraseDups)]
    reads := CallState.merge before.reads reads
    written := a.statesUsedAt (·.written) f n
    events := events.eraseDups }

structure Exploration where
  brought : Table NodeId CallState := []
  states : Table NodeId CallState := []

def Exploration.before (e : Exploration) (g : Flow) (n : NodeId) (skipped : Option NodeId) : CallState :=
  (g.fathers n).foldl (fun s m => (e.states.find? m).elim s fun t => s.join (t.without skipped)) {}

/-- What was brought to a node is kept together, but of the states only the last. -/
def Exploration.put (e : Exploration) (n : NodeId) (before after : CallState) : Exploration :=
  { brought := e.brought.alter n {} (·.join before), states := e.states.insert n after }

def isNegated (n : Node) : Bool := n.expr matches some (.unary _ .bang _)

/-- A call in a condition that fails has done nothing: beside the node where it fails stands the one whose calls do not count. -/
def waysFrom (g : Flow) (n : NodeId) (hasCall : Bool) : Result (List (NodeId × Option NodeId)) :=
  let sons := g.sons n
  let plain (m : NodeId) : NodeId × Option NodeId := (m, none)
  if !hasCall || (g.kind n != .branch && g.kind n != .loopBranch) then .ok (sons.map plain)
  else if isNegated (g.node n) then match sons with
    | m :: rest => .ok ((m, some n) :: rest.map plain)
    | [] => .error .outOfRange
  else if let m :: k :: _ := sons then .ok [(k, some n), plain m] else .error .outOfRange

def leave (f : FunctionId) (n : NodeId) (callbacks : List Place) (before : CallState) :
    Result (CallState × List (NodeId × Option NodeId)) := do
  return (a.after f n callbacks before, <- waysFrom (a.flow f) n !callbacks.isEmpty)

/-- What may have happened when a node is left, and where to. -/
def visit (f : FunctionId) (n : NodeId) (before : CallState) : Inquiry (CallState × List (NodeId × Option NodeId)) := do
  modify (a.noteAsked ((a.nodeCode f n).internalCalls.filterMap (calledFunction? ·.op)))
  let callbacks <- a.callbackNodes rule (a.numberedOps f n)
  match a.leave f n callbacks before with
  | .ok left => return left
  | .error fault => throw fault

/-- Walks on from a node, if something new comes to it. -/
@[specialize] def explore {m : Type -> Type} [Monad m] [MonadExceptOf Fault m] (g : Flow)
    (visit : NodeId -> CallState -> m (CallState × List (NodeId × Option NodeId))) :
    Nat -> Option NodeId -> Exploration -> NodeId -> m Exploration
  | 0, _, _, _ => throw .depth
  | fuel + 1, skipped, e, n => do
    let before := e.before g n skipped
    if (e.brought.find? n).any before.isKnown then return e
    let (after, ways) <- visit n before
    ways.foldlM (fun e (k, skipped) => explore g visit fuel skipped e k) (e.put n before after)

/-- Every step brings something new to a node, and there is only so much to bring. -/
def exploreBound (f : FunctionId) : Nat :=
  let nodes := a.nodeIds f
  let vars := (nodes.flatMap (a.usesAt (·.read) f)).length
  let facts := 2 * (nodes.flatMap (a.numberedOps f)).length + 2 * vars + nodes.length * (vars + 3)
  nodes.length * (facts + 1) + 1

def callStates (f : FunctionId) : Inquiry (Table NodeId CallState) := do
  let some n := (a.flow f).entry | return []
  return (<- explore (a.flow f) (a.visit rule f) (a.exploreBound f) none {} n).states

end Analysis

def Analyze.inquire {α : Type} (x : Analysis -> Inquiry α) : Analyze α := do
  let a <- get
  match (x a).run a.memo with
  | .ok value memo => set { a with memo }; return value
  | .error fault memo => set { a with memo }; throw fault

def Analyze.exploreCalls (rule : CallbackRule) : Analyze Unit := do
  let p := (<- get).program
  for f in p.allCode do
    if (p.function f).kind != .constructor && (p.function f).implemented == some true
      && !(<- get).memo.callStates.has (rule, f) then
      let states <- inquire (·.callStates rule f)
      modify fun a => { a with memo := { a.memo with callStates := a.memo.callStates.insert (rule, f) states } }

end ContractAudit
