import ContractAudit.Flow.Graph

/-! # Construction of flow graphs

A statement extends a graph after a node and yields the node where it ends. Jumps are corrected once the whole body is there.
-/

namespace ContractAudit

/-! ## Statements

A part that could not be read holds the fault in its place, so that a graph can be built up to that point.
-/

abbrev Read (α : Type) := Result α

structure Piece where
  tree : Json
  source : Source
  deriving Inhabited

inductive Yul where
  | fault (why : Fault)
  | block (body : List Yul)
  | declare (variable_ : VariableId) (site : Read Source)
  | single (kind : NodeKind) (site : Read Source) (pending : Option Json)
  | ifThen (site : Read Source) (condition : Json) (whenTrue : Yul)
  | ifElse (site : Read Source) (condition : Json) (whenTrue whenFalse : Yul)
  | forLoop (site : Read Source) (init : Yul) (condition : Json) (conditionSite : Read Source) (post body : Yul)

inductive Stmt where
  | fault (why : Fault)
  | block (unchecked : Bool) (body : List Stmt)
  | ifThen (condition : Read Piece) (whenTrue : Stmt) (site : Read Source)
  | ifElse (condition : Read Piece) (whenTrue whenFalse : Stmt) (site : Read Source)
  | whileLoop (site : Read Source) (condition : Read Piece) (body : Stmt)
  | forLoop (site : Read Source) (init : Stmt) (condition : Option (Read Piece)) (post body : Stmt)
  | doWhile (site : Read Source) (condition : Read Piece) (body : Stmt)
  | tryCatch (site : Read Source) (call : Read Json) (clauses : List Stmt)
  | clause (site : Read Source) (body : Stmt)
  | single (kind : NodeKind) (site : Read Source) (pending : Option Json) (after : Option Fault)
  | declare (variable_ : VariableId) (site : Read Source)
  | assembly (site : Read Source) (scope : Nat) (body : Yul) (after : Option Fault)
  | rawAssembly (site : Read Source) (code : Option Json)

abbrev Stmt.skip : Stmt := block false []

/-! ## Construction of flow graphs -/

abbrev Build := EStateM Fault Flow

namespace Build

def ofRead (r : Read α) : Build α :=
  match r with
  | .ok a => pure a
  | .error f => throw f

def newNode (n : Node) : Build NodeId := modifyGet fun g => let (g, i) := g.add n; (i, g)

def link (a b : NodeId) : Build Unit := modify (·.link a b)

def nodeAt (kind : NodeKind) (site : Read Source) (checked : Bool) (pending : Option Json) :
    Build NodeId := do
  newNode { kind, source := <- ofRead site, checked, pending }

def conditionNode (kind : NodeKind) (c : Read Piece) (checked : Bool) : Build NodeId := do
  let c <- ofRead c
  newNode { kind, source := c.source, checked, pending := some c.tree }

def raise (f : Option Fault) : Build Unit :=
  match f with
  | some f => throw f
  | none => pure ()

def yulNode (scope : Nat) (kind : NodeKind) (site : Read Source) (pending : Option Json)
    (declared : Option VariableId) : Build NodeId := do
  newNode { kind, source := <- ofRead site, checked := false, pending := pending
            declared := declared, assemblyScope := some scope }

mutual
def yul (scope : Nat) (before : NodeId) : Yul -> Build NodeId
  | .fault f => throw f
  | .block body => yulList scope before body
  | .declare v site => do
    let n <- yulNode scope .declaration site none (some v)
    link before n
    return n
  | .single kind site pending => do
    let n <- yulNode scope kind site pending none
    link before n
    return n
  | .ifThen site condition whenTrue => do
    let c <- yulNode scope .branch site (some condition) none
    let stop <- yulNode scope .endIf site none none
    let t <- yul scope c whenTrue
    link c stop
    link before c
    link t stop
    return stop
  | .ifElse site condition whenTrue whenFalse => do
    let c <- yulNode scope .branch site (some condition) none
    let stop <- yulNode scope .endIf site none none
    let t <- yul scope c whenTrue
    let f <- yul scope c whenFalse
    link f stop
    link before c
    link t stop
    return stop
  | .forLoop site init condition conditionSite post body => do
    let start <- yulNode scope .startLoop site none none
    let stop <- yulNode scope .endLoop site none none
    link before start
    let i <- yul scope start init
    let c <- yulNode scope .loopBranch conditionSite (some condition) none
    link i c
    link c stop
    let b <- yul scope c body
    let p <- yul scope b post
    link p c
    return stop

def yulList (scope : Nat) (before : NodeId) : List Yul -> Build NodeId
  | [] => return before
  | s :: rest => do yulList scope (<- yul scope before s) rest
end

mutual
/-- Extends the graph by a statement. `checked` tells whether arithmetic is checked there. -/
def stmt (checked : Bool) (before : NodeId) : Stmt -> Build NodeId
  | .fault f => throw f
  | .block unchecked body => stmts (checked && !unchecked) before body
  | .ifThen condition whenTrue site => do
    let c <- conditionNode .branch condition checked
    link before c
    let t <- stmt checked c whenTrue
    let stop <- nodeAt .endIf site checked none
    link t stop
    link c stop
    return stop
  | .ifElse condition whenTrue whenFalse site => do
    let c <- conditionNode .branch condition checked
    link before c
    let t <- stmt checked c whenTrue
    let f <- stmt checked c whenFalse
    let stop <- nodeAt .endIf site checked none
    link t stop
    link f stop
    return stop
  | .whileLoop site condition body => do
    let start <- nodeAt .startLoop site checked none
    let c <- conditionNode .loopBranch condition checked
    let b <- stmt checked c body
    let stop <- nodeAt .endLoop site checked none
    link before start
    link start c
    link b c
    link c stop
    return stop
  | .forLoop site init condition post body => do
    let start <- nodeAt .startLoop site checked none
    let stop <- nodeAt .endLoop site checked none
    let i <- stmt checked before init
    link i start
    match condition with
    | some condition => do
      let c <- conditionNode .loopBranch condition checked
      link start c
      let b <- stmt checked c body
      let p <- stmt checked b post
      link p c
      link c stop
    | none => do
      let b <- stmt checked start body
      let p <- stmt checked b post
      link p start
      link start stop
    return stop
  | .doWhile site condition body => do
    let start <- nodeAt .startLoop site checked none
    let c <- conditionNode .loopBranch condition checked
    let b <- stmt checked c body
    let stop <- nodeAt .endLoop site checked none
    link before start
    match (<- get).sons c with
    | [] => link start c
    | first :: _ => link start first
    link b c
    link c stop
    return stop
  | .tryCatch site call clauses => do
    let t <- nodeAt .tries site checked none
    let call <- ofRead call
    modify (·.modify t fun n => { n with pending := some call })
    link before t
    clauseList checked t clauses
    return t
  | .clause site body => do
    let c <- nodeAt .catches site checked none
    link before c
    stmt checked c body
  | .single kind site pending after => do
    let n <- nodeAt kind site checked pending
    link before n
    raise after
    return n
  | .declare v site => do
    let n <- newNode { kind := .declaration, source := <- ofRead site, checked, declared := some v }
    link before n
    return n
  | .assembly site scope body after => do
    let start <- newNode { kind := .assembly, source := <- ofRead site, checked := false, assemblyScope := some scope }
    let last <- yul scope start body
    raise after
    link before start
    let stop <- nodeAt .endAssembly site checked none
    link last stop
    return stop
  | .rawAssembly site code => do
    let n <- newNode { kind := .assembly, source := <- ofRead site, checked, code }
    link before n
    let stop <- nodeAt .endAssembly site checked none
    link n stop
    return stop

def stmts (checked : Bool) (before : NodeId) : List Stmt -> Build NodeId
  | [] => return before
  | s :: rest => do stmts checked (<- stmt checked before s) rest

def clauseList (checked : Bool) (before : NodeId) : List Stmt -> Build Unit
  | [] => return
  | s :: rest => do
    let _ <- stmt checked before s
    clauseList checked before rest
end

end Build

/-- By how many loops a path gets deeper at a node. -/
def NodeKind.shift : NodeKind -> Int
  | startLoop => 1
  | endLoop => -1
  | _ => 0

namespace Flow

variable (g : Flow) (i : NodeId)

def plainNodes : List NodeId := g.order.filter fun i => (g.node i).assemblyScope.isNone

/-- What is found first, on paths that no node is on twice, where `count` is zero. `visited` are the nodes of the path, and
`fuel` bounds its length. -/
def search (next : NodeId -> List NodeId) (found? : NodeId -> Option NodeId) (shift : NodeId -> Int) :
    Nat -> NodeId -> List NodeId -> Int -> Option NodeId
  | 0, _, _, _ => none
  | fuel + 1, i, visited, count =>
    if visited.contains i then none
    else (if count == 0 then found? i else none).or
      ((next i).findSome? fun j => search next found? shift fuel j (visited ++ [i]) (count + shift i))

/-- The first end met that no start between opens. -/
def findEndLoop : Nat -> NodeId -> List NodeId -> Int -> Option NodeId :=
  search g.sons (fun i => if g.kind i == .endLoop then some i else none) fun i => (g.kind i).shift

/-- Where the next round of the loop around a node starts. -/
def findLoopHead : Nat -> NodeId -> List NodeId -> Int -> Option NodeId :=
  search g.fathers (fun i => match g.kind i with
    | .loopBranch => some (((g.fathers i).find? fun f => g.kind f == .expression).getD i)
    | .startLoop => some i
    | _ => none) fun i => -(g.kind i).shift

def cutSons : Flow := ((g.sons i).foldl (fun g son => g.dropFather son i) g).setSons i []

def redirect (i target : NodeId) : Flow :=
  (((g.sons i).foldl (fun g son => g.dropFather son i) g).setSons i [target]).addFather target i

def joinClause (g : Flow) : Nat -> NodeId -> NodeId -> List NodeId -> Flow × List NodeId
  | 0, _, _, visited => (g, visited)
  | fuel + 1, i, stop, visited =>
    if (g.sons i).isEmpty then (g.link i stop, visited)
    else (g.sons i).foldl (fun (g, visited) son =>
      if son == stop || visited.contains son then (g, visited)
      else g.joinClause fuel son stop (visited ++ [son])) (g, visited)

/-- Corrects the edges of one jump. `name` is the name of the function. -/
def fixJump (name : String) (i : NodeId) : Result Flow :=
  let bound := g.nodes.size + 1
  match g.kind i with
  | .returns | .throws => .ok (g.cutSons i)
  | .breaks =>
    match (g.findEndLoop bound i [] 0).or (g.findEndLoop bound i [] (-1)) with
    | some stop => .ok (g.redirect i stop)
    | none => .error (.parsing s!"Break in no-loop context {name}")
  | .continues =>
    match g.findLoopHead bound i [] 0 with
    | some head => .ok (g.redirect i head)
    | none => .error (.parsing s!"Continue in no-loop context {i}")
  | .tries =>
    match (g.sons i).find? fun son => g.kind son != .catches with
    | none => .ok g
    | some stop =>
      .ok ((g.sons i).foldl (fun g son => if g.kind son == .catches then (g.joinClause bound son stop []).1 else g) g)
  | _ => .ok g

/-- A loop without condition leads to its end only if nothing else follows its start. -/
def pruneLoopStart : Flow :=
  if g.kind i != .startLoop || !(g.sons i).any (fun s => g.kind s != .endLoop && s != i) then g
  else
    let (ends, kept) := (g.sons i).partition fun s => g.kind s == .endLoop
    (ends.foldl (fun g son => g.dropFather son i) g).setSons i kept

/-- Takes the ends of branches that nothing leads to out of the graph. -/
def dropLoneEnds : Flow :=
  let (g, gone) := g.plainNodes.foldl (fun (g, gone) i =>
    if g.kind i == .endIf && (g.fathers i).isEmpty then (g.cutSons i, gone ++ [i]) else (g, gone))
    (g, ([] : List NodeId))
  g.remove gone

/-- What leads to a node is made to lead to another. -/
def moveFathers (i c : NodeId) : Flow :=
  (g.fathers i).foldl (fun g father => (g.replaceSon father i c).addFather c father) g

/-- What a node leads to is made to follow another. -/
def moveSons (i stop : NodeId) : Flow :=
  (g.sons i).foldl (fun g son => ((g.dropFather son i).addFather son stop).addSon stop son) g

/-- Takes over the edges of a node. The parts join at `stop` unless the run ends there. -/
def wireBranch (i c t e stop : NodeId) (ends : Bool) : Flow :=
  let g := (((g.moveFathers i c).moveSons i stop).link c t).link c e
  if ends then g else (g.link t stop).link e stop

def replaceByBranch (branch whenTrue whenFalse join : Node) (ends : Bool) : Flow :=
  let (g, c) := g.add branch
  let (g, t) := g.add whenTrue
  let (g, e) := g.add whenFalse
  let (g, stop) := g.add join
  (g.wireBranch i c t e stop ends).remove [i]

end Flow

def Build.fixJumps (name : String) : Build Unit := do
  let plain := (<- get).plainNodes
  for i in plain do
    match (<- get).fixJump name i with
    | .ok g => set g
    | .error f => throw f
  for i in plain do modify (·.pruneLoopStart i)

def Build.body (name : String) (checked : Bool) (entry : NodeId) (xs : List Stmt) : Build Unit := do
  let _ <- stmts checked entry xs
  fixJumps name

end ContractAudit
