import ContractAudit.Print.Basic

/-! # Printed graphs -/

namespace ContractAudit.Print

open Ir Text Analysis Table

variable (p : Program) (a : Analysis) (f : FunctionId)

def inQuotes (s : String) : String := "\"" ++ s ++ "\""

def graphText (lines : List String) : String := "digraph\x7b\n" ++ .join (lines.map (· ++ "\n")) ++ "\x7d\n"

def flowLabel (n : NodeId) : String :=
  let node := (a.flow f).node n
  let expr := node.expr.elim "" fun e => "\nEXPRESSION:\n" ++ a.program.exprText e ++ "\n"
  let instrs := a.instrs f n
  let ops := if instrs.isEmpty then "" else "\nIRs:\n" ++ "\n".intercalate (instrs.map (a.opText f n))
  s!"Node Type: {node.kind.label} {n}\n" ++ expr ++ ops

/-- The two ways from a condition are told apart. -/
def flowEdges (g : Flow) (n : NodeId) : Result (List String) :=
  let marked (son : NodeId) (mark : String) : String := s!"{n}->{son}[label=" ++ inQuotes mark ++ "];"
  if g.kind n == .branch || g.kind n == .loopBranch then
    if let yes :: no :: _ := g.sons n then .ok [marked yes "True", marked no "False"] else .error .outOfRange
  else .ok ((g.sons n).map fun son => s!"{n}->{son};")

def flowGraph : Result String := do
  let lines <- (a.nodeIds f).mapM fun n => do
    return (s!"{n}[label=" ++ inQuotes (flowLabel a f n) ++ "];") :: (<- flowEdges (a.flow f) n)
  return graphText lines.flatten

def dominatorTree : String :=
  let d := a.dominance f
  graphText ((a.nodeIds f).flatMap fun n =>
    let frontier := (d.frontierOf n).mergeSort fun i j => decide (i ≤ j)
    let edge := if frontier.isEmpty then "" else "\ndominance frontier: " ++ bracketed (frontier.map toString)
    let label := s!"{a.program.nodeText ((a.flow f).node n)}\nid: {n}" ++ edge
    (s!"{n}[label=" ++ inQuotes label ++ "];") :: (d.immediateOf n).toList.map fun m => s!"{m}->{n};")

def filePerFunction (start : String) (draw : Analysis -> FunctionId -> Result String) (x : PrintInput) :
    Result Printout := do
  let start := if x.file == "" then start else x.file ++ "-"
  let drawn <- x.contracts.flatMap (fun s => (s.functions ++ s.modifiers).map fun f => (s, f)) |>.mapM fun (s, f) => do
    return (s!"{start}{s.name}-{s.program.functionFullName f}.dot", <- draw s.unit f)
  return { info := [.join (drawn.map fun (file, _) => s!"Export {file}\n")], files := ofList drawn }

def flowGraphs : Printer where
  name := "cfg"
  print := filePerFunction "" flowGraph

def dominatorTrees : Printer where
  name := "dominator"
  print := filePerFunction "dominator-" fun a f => .ok (dominatorTree a f)

structure UnitContract where
  unit : Nat
  contract : ContractId
  deriving DecidableEq

structure CallGraph where
  contracts : List UnitContract := []
  nodes : Table UnitContract (List String) := []
  edges : Table UnitContract (List String) := []
  builtins : List String := []
  builtinCalls : List String := []
  outward : List String := []

namespace CallGraph

def nodeName (c : ContractId) (name : String) : String := s!"{(p.contract c).id}_{name}"

def edge (source target : String) : String := inQuotes source ++ " -> " ++ inQuotes target

def node (name label : String) : String := inQuotes name ++ " [label=" ++ inQuotes label ++ "]"

def addLine (c : UnitContract) (line : String) (t : Table UnitContract (List String)) : Table UnitContract (List String) :=
  t.alter c [] (addNew line)

def addInner (c : UnitContract) (source : String) (g : CallGraph) : Target -> CallGraph
  | .func f => { g with edges := addLine c (edge source (nodeName p c.contract (p.functionName f))) g.edges }
  | t =>
    let name := p.targetText t
    { g with builtins := addNew (inQuotes name ++ " ") g.builtins, builtinCalls := addNew (edge source name) g.builtinCalls }

/-- Only contracts that take part are shown. -/
def addOutward (unit : Nat) (source : String) (g : CallGraph) (call : OutwardCall) : Result CallGraph := do
  let .target (.contract d) := call.owner | return g
  let callee : UnitContract := ⟨unit, d⟩
  if !g.contracts.contains callee then return g
  let target : Option Target := match call.instr.op with
    | .call { kind := .highLevel _ _ t, .. } | .call { kind := .library _ _ t, .. } => t
    | _ => none
  let some target := target | throw (.lacks "NoneType" "name")
  let name := nodeName p d (p.targetText target)
  let nodes := if let .var v := target then addLine callee (node name (p.var v).name) g.nodes else g.nodes
  return { g with nodes, outward := addNew (edge source name) g.outward }

def addFunction (unit : Nat) (g : CallGraph) (f : FunctionId) : Result CallGraph := do
  let p := a.program
  let some c := p.functionDeclarer? f | return g
  let source := nodeName p c (p.functionName f)
  let here : UnitContract := ⟨unit, c⟩
  let g := { g with nodes := addLine here (node source (p.functionName f)) g.nodes }
  let g := ((a.internalCalls f).filterMap (callee? ·.op)).foldl (addInner p here source) g
  (a.outwardCalls f).foldlM (addOutward p unit source) g

def ofFunctions (fs : List (Nat × Analysis × FunctionId)) : Result CallGraph := do
  let contracts := fs.filterMap fun (unit, a, f) => (a.program.functionDeclarer? f).map fun c => (⟨unit, c⟩ : UnitContract)
  fs.foldlM (fun g (unit, a, f) => addFunction a unit g f) { contracts := contracts.eraseDups }

def cluster (name label : String) (lines : List String) : List String :=
  s!"subgraph {name} \x7b" :: s!"label = {inQuotes label}" :: lines ++ ["\x7d"]

def render (programs : List Program) (g : CallGraph) : String :=
  let own := g.contracts.flatMap fun c =>
    let x := (programs.getD c.unit {}).contract c.contract
    let lines (t : Table UnitContract (List String)) : List String := (t.find? c).getD []
    cluster s!"cluster_{x.id}_{x.name}" x.name (lines g.nodes ++ lines g.edges)
  let builtins := cluster "cluster_solidity" "[Solidity]" (g.builtins ++ g.builtinCalls)
  "\n".intercalate (["strict digraph \x7b", "rankdir=\"LR\"", "node [shape=box]"] ++ own ++ builtins ++
    g.outward ++ ["\x7d"])

end CallGraph

def callGraph : Printer where
  name := "call-graph"
  print x := do
    let units : List (Nat × Analysis) := x.units.zipIdx.map fun (a, i) => (i, a)
    let programs := x.units.map (·.program)
    let all := units.flatMap fun (i, a) => a.program.allFunctions.map fun f => (a.program.functionCanonicalName f, i, a, f)
    let whole <- CallGraph.ofFunctions (ofList all).values
    let start := if x.file == "" || x.file == "." then "" else if endsWith x.file ".dot" then x.file else x.file ++ "."
    let wholeFile := if x.file == ".dot" then "all_contracts.dot"
      else if endsWith x.file ".dot" then "" else start ++ "all_contracts.call-graph.dot"
    let derived <- (units.flatMap fun (i, a) => a.program.mostDerived.map fun c => (i, a, c)).mapM fun (i, a, c) => do
      let g <- CallGraph.ofFunctions ((a.program.functionsOf c).map fun f => (i, a, f))
      return (s!"{start}{(a.program.contract c).name}.call-graph.dot", g.render programs)
    let files := (wholeFile, whole.render programs) :: derived
    return { info := [String.join (files.map fun (file, _) => s!"Call Graph: {file}\n")], files := ofList files }

def tableLine (content : String) : String := "<TR><TD align=\"left\">" ++ content ++ "</TD></TR>"

/-- One that shadows another is marked. -/
def functionLine : String :=
  let name := "    " ++ p.functionFullName f
  tableLine (if (p.function f).shadows then "<font color=\"#FFA500\">" ++ name ++ "</font>" else name)

/-- One that shadows another is marked, one that holds a contract is shown with it. -/
def variableLine (shadowing : List VariableId) (v : VariableId) : String :=
  let x := p.var v
  let name := "    " ++ x.name
  let held := match x.type with
    | some (.contract c) => "<font color=\"blue\" POINT-SIZE=\"10\"> (" ++ (p.contract c).name ++ ")</font>"
    | _ => ""
  tableLine ((if shadowing.contains v then "<font color=\"red\">" ++ name ++ "</font>" else name) ++ held)

def section_ (head : String) (lines : List String) : String :=
  if lines.isEmpty then "" else tableLine ("<I>" ++ head ++ ":</I>") ++ .join lines

def collisionText (c : ContractId) : String :=
  let declarer (f : FunctionId) : String := ((p.functionDeclarer? f).map fun d => (p.contract d).name).getD ""
  "\n".intercalate ((p.inheritanceCollisions c).map fun (winner, losers) =>
    let steps := ", ".intercalate ((losers ++ [winner]).map declarer)
    s!"'{p.functionFullName winner}' collides in inherited contracts {steps} where {declarer winner} is chosen.")

def isMock (c : Contract) : Bool := contains c.name.toLower "mock"

/-- Numbered if there are several. Mocks are left out, and interfaces unless they are asked for. -/
def inheritanceEdges (includeInterfaces : Bool) (c : ContractId) : String :=
  let name (d : ContractId) : String := s!"c{(p.contract d).id}_{(p.contract d).name}"
  let bases := (p.contract c).immediateInheritance
  let shown := bases.filter fun d => !isMock (p.contract d) && (!(p.contract d).isInterface || includeInterfaces)
  match shown, bases with
  | [_], base :: _ => s!"{name c} -> {name base};\n"
  | shown, _ => .join (shown.zipIdx.map fun (d, i) =>
    s!"{name c} -> {name d} [ label=" ++ inQuotes (toString (i + 1)) ++ " ];\n")

def contractBox (includeInterfaces : Bool) (shadowing : List VariableId) (s : Seat) : Result String := do
  let p := s.program
  let c := s.contract
  let declared := (p.declaredFunctions c).filter fun f => (p.function f).kind != .constructor && !p.isInitial f
  let open_ <- (declared.filter fun f => !(p.function f).virtual).filterM (isOpen p)
  let closed <- declared.filterM fun f => do return !(<- isOpen p f)
  let isPublic (v : VariableId) : Bool := (p.var v).visibility == some "public" || (p.var v).visibility == some "external"
  let vars := p.declaredVariables c
  let collisions := collisionText p c
  return inheritanceEdges p includeInterfaces c ++ s!"c{s.declaration.id}_{s.name}[shape=" ++ inQuotes "box"
    ++ "label=< <TABLE border=\"0\">" ++ s!"<TR><TD align=" ++ inQuotes "center" ++ s!"><B>{s.name}</B></TD></TR>"
    ++ section_ "Public Functions" (open_.map (functionLine p))
    ++ section_ "Private Functions" (closed.map (functionLine p))
    ++ section_ "Modifiers" ((p.declaredModifiers c).map (functionLine p))
    ++ section_ "Public Variables" ((vars.filter isPublic).map (variableLine p shadowing))
    ++ section_ "Private Variables" ((vars.filter (!isPublic ·)).map (variableLine p shadowing))
    ++ (if collisions == "" then "" else
      "<TR><TD><BR/></TD></TR><TR><TD align=\"left\" border=\"1\"><font color=\"#777777\" point-size=\"10\">"
      ++ replace collisions "\n" "<BR/>" ++ "</font></TD></TR>")
    ++ "</TABLE> >];\n"

def inheritanceGraph : Printer where
  name := "inheritance-graph"
  print x := do
    let file := if x.file == "" || x.file == "." then "inheritance-graph.dot" else x.file
    let file := if endsWith file ".dot" then file else file ++ ".inheritance-graph.dot"
    let shown := x.contracts.filter fun s =>
      !isMock s.declaration && !s.declaration.isLibrary && (!s.declaration.isInterface || x.includeInterfaces)
    let boxes <- shown.mapM fun s => do
      let shadowing := s.program.shadowingVariables.map fun (_, v, _, _) => v
      return (<- contractBox x.includeInterfaces shadowing s) ++ "\n"
    let content := "digraph \"\" \x7b\n" ++ .join boxes ++ "\x7d"
    return { info := [s!"Inheritance Graph: {file}\n"], files := [(file, content)] }

end ContractAudit.Print
