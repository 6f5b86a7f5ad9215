import ContractAudit.Expr
import ContractAudit.Json

/-! # Flow graphs

A node is named by its place in the table. Nodes that were taken out of the graph stay in the table but not in `order`.
-/

namespace ContractAudit

/-! ## Searches

`fuel` has to be at least the number of elements at the start and of the steps between those that are reached.
-/

namespace Search

variable {α : Type} [BEq α]

/-- New ones come last. -/
def run (next : α -> List α) : Nat -> List α -> List α -> List α
  | 0, _, seen => seen
  | _, [], seen => seen
  | fuel + 1, x :: todo, seen =>
    if seen.contains x then run next fuel todo seen
    else run next fuel (todo ++ next x) (seen ++ [x])

def reach (next : α -> List α) (fuel : Nat) (start : List α) : List α := run next fuel start []

end Search

/-! ## Flow graphs -/

inductive NodeKind where
  | entryPoint | expression | returns | branch | declaration | assembly | endAssembly | loopBranch
  | endIf | startLoop | endLoop | throws | breaks | continues | placeholder | tries | catches
  | otherEntryPoint
  deriving DecidableEq, Inhabited

def NodeKind.label : NodeKind -> String
  | entryPoint => "ENTRY_POINT"
  | expression => "EXPRESSION"
  | returns => "RETURN"
  | branch => "IF"
  | declaration => "NEW VARIABLE"
  | assembly => "INLINE ASM"
  | endAssembly => "END INLINE ASM"
  | loopBranch => "IF_LOOP"
  | endIf => "END_IF"
  | startLoop => "BEGIN_LOOP"
  | endLoop => "END_LOOP"
  | throws => "THROW"
  | breaks => "BREAK"
  | continues => "CONTINUE"
  | placeholder => "_"
  | tries => "TRY"
  | catches => "CATCH"
  | otherEntryPoint => "OTHER_ENTRYPOINT"

def NodeKind.name : NodeKind -> String
  | entryPoint => "ENTRYPOINT"
  | declaration => "VARIABLE"
  | assembly => "ASSEMBLY"
  | endAssembly => "ENDASSEMBLY"
  | loopBranch => "IFLOOP"
  | endIf => "ENDIF"
  | startLoop => "STARTLOOP"
  | endLoop => "ENDLOOP"
  | placeholder => "PLACEHOLDER"
  | k => k.label

structure Node where
  kind : NodeKind
  source : Source := {}
  checked : Bool := true
  expr : Option Expr := none
  declared : Option VariableId := none
  sons : List NodeId := []
  fathers : List NodeId := []
  reachable : Bool := false
  surveyed : Bool := false
  code : Option Json := none
  pending : Option Json := none
  assemblyScope : Option Nat := none
  deriving Inhabited

structure Flow where
  nodes : Array Node := #[]
  order : List NodeId := []
  entry : Option NodeId := none

namespace Flow

variable (g : Flow) (i : NodeId) (son : NodeId)

def node : Node := g.nodes.getD i default

def kind : NodeKind := (g.node i).kind

def sons : List NodeId := (g.node i).sons

def fathers : List NodeId := (g.node i).fathers

def modify (f : Node -> Node) : Flow := { g with nodes := g.nodes.modify i f }

def add (n : Node) : Flow × NodeId := ({ g with nodes := g.nodes.push n, order := g.order ++ [g.nodes.size] }, g.nodes.size)

def link (a b : NodeId) : Flow :=
  (g.modify a fun n => { n with sons := n.sons ++ [b] }).modify b fun n => { n with fathers := n.fathers ++ [a] }

def dropFather (i father : NodeId) : Flow := g.modify i fun n => { n with fathers := n.fathers.filter (· != father) }

def dropSon : Flow := g.modify i fun n => { n with sons := n.sons.filter (· != son) }

def setSons (sons : List NodeId) : Flow := g.modify i fun n => { n with sons }

def addFather (i father : NodeId) : Flow := g.modify i fun n => { n with fathers := n.fathers ++ [father] }

def addSon : Flow := g.modify i fun n => { n with sons := n.sons ++ [son] }

def replaceFirst (old new : NodeId) : List NodeId -> List NodeId
  | [] => []
  | x :: xs => if x == old then new :: xs else x :: replaceFirst old new xs

def replaceSon (i old new : NodeId) : Flow := g.modify i fun n => { n with sons := replaceFirst old new n.sons }

def insertAfter (origin inserted : NodeId) : Flow :=
  let sons := g.sons origin
  sons.foldl (fun g son => ((g.dropFather son origin).dropSon origin son).link inserted son) (g.link origin inserted)

def remove (gone : List NodeId) : Flow := { g with order := g.order.filter fun i => !gone.contains i }

def edgeCount : Nat := g.nodes.foldl (fun k n => k + n.sons.length) 0

def reachableFrom : List NodeId := Search.reach g.sons (g.edgeCount + 2) [i]

def markReachable : Flow := (g.reachableFrom i).foldl (fun g j => g.modify j fun n => { n with reachable := true }) g

/-! ## Complexity of flow graphs

Strongly connected components are found by two walks, one along the edges and one against them from the nodes left last.
-/

variable (g : Flow)

def sonCount : Nat := g.order.foldl (fun k i => k + (g.sons i).length) 0

def cyclomaticComplexity : Int := (g.sonCount : Int) - g.order.length + 2

/-- What walks from some nodes come to, where each walk passes over what was met before. -/
def walkEach (walk : List NodeId -> NodeId -> List NodeId) : List NodeId -> List NodeId -> List NodeId
  | _, [] => []
  | met, i :: is =>
    let found := walk met i
    walkEach walk (found ++ met) is ++ found

/-- The nodes that a walk comes to, the last one that it leaves first. A walk is never deeper than the number of nodes. -/
def walk (next : NodeId -> List NodeId) : Nat -> List NodeId -> NodeId -> List NodeId
  | 0, _, _ => []
  | fuel + 1, met, i => if met.contains i then [] else i :: walkEach (walk next fuel) (i :: met) (next i)

def latestFirst : List NodeId := walkEach (walk g.sons (g.order.length + 1)) [] g.order

def components : List (List NodeId) :=
  (g.latestFirst.foldl (fun found i => found ++ [walk g.fathers (g.order.length + 1) found.flatten i]) []).filter (!·.isEmpty)

end Flow

/-! ## Dominators -/

structure Dominance where
  dominators : Array (List NodeId) := #[]
  immediate : Array (Option NodeId) := #[]
  frontier : Array (List NodeId) := #[]

namespace Dominance

variable (d : Dominance) (n : NodeId)

def dominatorsOf : List NodeId := d.dominators.getD n []

def immediateOf : Option NodeId := d.immediate.getD n none

def frontierOf : List NodeId := d.frontier.getD n []

def successors (order : List NodeId) (n : NodeId) : List NodeId := order.filter (d.immediateOf · == some n)

/-- Where a walk along dominance goes on from a node. -/
def onward (order : List NodeId) (n : NodeId) : List NodeId := d.successors order n ++ d.frontierOf n

end Dominance

namespace Flow

variable (g : Flow) (sets : Array (List NodeId))

def liveFathers (n : NodeId) : List NodeId := (g.fathers n).filter fun f => (g.node f).reachable

def dominatorStep (n : NodeId) : List NodeId :=
  match g.liveFathers n with
  | [] => [n]
  | fathers => g.order.filter fun d => d == n || fathers.all fun f => (sets.getD f []).contains d

def dominatorSweep : Array (List NodeId) := g.order.foldl (fun sets n => sets.setIfInBounds n (g.dominatorStep sets n)) sets

def dominatorSweeps (g : Flow) : Nat -> Array (List NodeId) -> Array (List NodeId)
  | 0, sets => sets
  | fuel + 1, sets =>
    let next := g.dominatorSweep sets
    if next == sets then sets else g.dominatorSweeps fuel next

def allDominators : Array (List NodeId) :=
  g.order.foldl (fun sets n => sets.setIfInBounds n g.order) (.replicate g.nodes.size [])

/-- Each sweep but the last takes something away, which bounds their number. -/
def dominatorSets : Array (List NodeId) := g.dominatorSweeps (g.order.length * g.order.length + 1) g.allDominators

/-- A node that is already in is passed over, since what dominates it is in, too. -/
def addAbove (above : List NodeId) (d : NodeId) : List NodeId :=
  if above.contains d then above
  else above ++ (sets.getD d []).filter fun q => q != d && !above.contains q

def allAbove (candidates : List NodeId) : List NodeId := candidates.foldl (addAbove sets) []

def closestOf (candidates : List NodeId) : Result (Option NodeId) :=
  match candidates with
  | [d] => .ok (some d)
  | _ =>
    let above := allAbove sets candidates
    match candidates.filter (!above.contains ·) ++ above.filter (!candidates.contains ·) with
    | [] => .ok none
    | [d] => .ok (some d)
    | _ => .error (.broken "")

/-- The closest of the other dominators of a node. -/
def immediateDominator (n : NodeId) : Result (Option NodeId) := closestOf sets ((sets.getD n []).filter (· != n))

/-- All on the way to the immediate dominator have the node in their frontier. To run out of `fuel` is a fault. -/
def climb (immediate : Array (Option NodeId)) (n : NodeId) : Nat -> NodeId -> Array (List NodeId) ->
    Result (Array (List NodeId))
  | 0, _, _ => .error (.broken "")
  | fuel + 1, runner, frontier =>
    if immediate.getD n none == some runner then .ok frontier
    else
      let frontier := frontier.modify runner fun ns => if ns.contains n then ns else ns ++ [n]
      (immediate.getD runner none).elim (.error (.broken "")) fun up => climb immediate n fuel up frontier

/-- An `if` without an `else` has its end in its frontier. -/
def addToFrontiers (immediate : Array (Option NodeId)) (frontier : Array (List NodeId)) (n : NodeId) :
    Result (Array (List NodeId)) :=
  if (g.fathers n).length < 2 then .ok frontier
  else (g.liveFathers n).foldlM (fun frontier father =>
    let frontier :=
      if immediate.getD n none == some father && g.kind father == .branch && g.kind n == .endIf then
        frontier.modify father fun ns => if ns.contains n then ns else ns ++ [n]
      else frontier
    climb immediate n (g.nodes.size + 1) father frontier) frontier

def dominance : Result Dominance := do
  let sets := g.dominatorSets
  let immediate <- g.order.foldlM (fun (known : Array (Option NodeId)) n => do
    return known.setIfInBounds n (<- immediateDominator sets n)) (.replicate g.nodes.size none)
  let frontier <- g.order.foldlM (g.addToFrontiers immediate) (.replicate g.nodes.size [])
  return { dominators := sets, immediate, frontier }

/-- Lists a node that is not listed, and then what follows it. `fuel` bounds how deep this goes. -/
def listFrom (next : NodeId -> List NodeId) : Nat -> List NodeId -> NodeId -> List NodeId
  | 0, listed, _ => listed
  | fuel + 1, listed, n =>
    if listed.contains n then listed else (next n).foldl (listFrom next fuel) (listed ++ [n])

/-- All nodes, first those that dominance leads to from the entry. -/
def byDominance (d : Dominance) : List NodeId :=
  (g.entry.toList ++ g.order).foldl (listFrom (d.onward g.order) (g.order.length + 1)) []

end Flow

end ContractAudit
