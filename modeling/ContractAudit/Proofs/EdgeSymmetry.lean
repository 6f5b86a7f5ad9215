import ContractAudit.Proofs.Bodies

/-! # Edges of the graphs of a unit

Of the stages in which a unit is read only the code works on contents of functions, and each content is read once. So every
graph of the unit has its edges at both ends, also that of a function that could not be read to its end.
-/

namespace ContractAudit.Reader

open Load State

/-! ## Stages -/

instance : Respects (Preserves Whole) readTopLevelContents := .of_def readTopLevelContents.eq_def

instance (c : ContractId) : Respects (Preserves Whole) (readCode readTopLevelHeads readTopLevelContents c) :=
  .of_def (readCode.eq_def readTopLevelHeads readTopLevelContents c)

instance : Respects (Preserves Whole) readContracts := .of_def readContracts.eq_def

/-! ## Units -/

/-- The state that a step comes to, whether it fails or not. -/
def stateAfter (x : Load Unit) (s : State) : State :=
  match x.run s with
  | .ok _ t => t
  | .error _ t => t

theorem stateAfter_of_preserves [hx : Respects (Preserves I) x] (hs : I s) :
    I (stateAfter x s) := by
  have hrun := hx.ensures s
  unfold Ensures at hrun
  unfold stateAfter EStateM.run
  cases hres : x s with
  | ok a t =>
    rw [hres] at hrun
    exact hrun.1 hs
  | error e t =>
    rw [hres] at hrun
    exact hrun hs

/-- In the graph of every function of a unit, `b` is a son of `a` as often as `a` is a father of `b`, and sons and fathers
are nodes of the graph. -/
theorem edges_mirrored_and_closed (options : Options) (lineMark : String) (unit : Input) (known : List String)
    (f : FunctionId) :
    let s := stateAfter (do readHeadsOfUnit known unit.files; readContracts) (State.initial options lineMark unit)
    let g := (s.program.function f).flow
    (∀ a ∈ g.order, ∀ b ∈ g.order, (g.sons a).count b = (g.fathers b).count a) ∧
      ∀ a ∈ g.order, (∀ b ∈ g.sons a, b ∈ g.order) ∧ ∀ b ∈ g.fathers a, b ∈ g.order := by
  intro s g
  have hread : Respects (Preserves Whole) (do readHeadsOfUnit known unit.files; readContracts) :=
    .bind inferInstance fun _ => inferInstance
  have hempty : Flow.Linked {} := by constructor <;> exact fun _ h => absurd h List.not_mem_nil
  have hwhole : Whole s := stateAfter_of_preserves ⟨⟨rfl, fun _ => hempty⟩, fun _ => .inr (.inl rfl)⟩
  have hlinked : g.Linked := hwhole.sane.linked f
  exact ⟨hlinked.mirrored, fun a ha => ⟨hlinked.sons_mem a ha, hlinked.fathers_mem a ha⟩⟩

/-! A loop that is left by a jump and by a return. The ends of its branches go, as nothing leads to them. -/

def treeNode (kind : String) (fields : List (String × Json)) : Json :=
  .obj ([("nodeType", .str kind), ("src", .str "0:1:0")] ++ fields)

def literalTree (kind value : String) : Json :=
  treeNode "Literal" [("kind", .str kind), ("value", .str value), ("typeDescriptions", .obj [("typeString", .str kind)])]

/-- The statement `while (true) if (true) break; else return true ? 1 : 2;`. -/
def leavingLoop : Json :=
  let yes := literalTree "bool" "true"
  let choice := treeNode "Conditional" [("condition", yes), ("trueExpression", literalTree "number" "1"),
    ("falseExpression", literalTree "number" "2"), ("typeDescriptions", .obj [("typeString", .str "uint8")])]
  let branch := treeNode "IfStatement" [("condition", yes), ("trueBody", treeNode "Break" []),
    ("falseBody", treeNode "Return" [("expression", choice)])]
  treeNode "WhileStatement" [("condition", yes), ("body", branch)]

/-- A contract with a function of one statement. -/
def unitOf (statement : Json) : Input :=
  let nothing := treeNode "ParameterList" [("parameters", .arr [])]
  let body := treeNode "Block" [("statements", .arr [statement])]
  let function := treeNode "FunctionDefinition" [("name", .str "f"), ("id", .int 1), ("modifiers", .arr []),
    ("parameters", nothing), ("returnParameters", nothing), ("body", body)]
  let contract := treeNode "ContractDefinition" [("name", .str "C"), ("id", .int 2), ("baseContracts", .arr []),
    ("linearizedBaseContracts", .arr [.int 2]), ("contractKind", .str "contract"), ("fullyImplemented", .bool true),
    ("nodes", .arr [function])]
  { name := "u", version := "0.8.0", files := [⟨"a.sol", "", treeNode "SourceUnit" [("nodes", .arr [contract])]⟩] }

theorem leavingLoop_edges :
    let unit := unitOf leavingLoop
    let s := stateAfter (do readHeadsOfUnit [] unit.files; readContracts) (State.initial {} "#" unit)
    let g := (s.program.function 0).flow
    g.order = [0, 1, 2, 3, 4, 7, 8, 9, 10] ∧ g.sons 3 = [4, 8] ∧ (g.sons 3).count 8 = (g.fathers 8).count 3 := by
  intro unit s g
  obtain ⟨horder, hsons⟩ : g.order = [0, 1, 2, 3, 4, 7, 8, 9, 10] ∧ g.sons 3 = [4, 8] := by decide +kernel
  refine ⟨horder, hsons, (edges_mirrored_and_closed {} "#" unit [] 0).1 3 ?_ 8 ?_⟩
  · exact horder ▸ by decide
  · exact horder ▸ by decide

end ContractAudit.Reader
